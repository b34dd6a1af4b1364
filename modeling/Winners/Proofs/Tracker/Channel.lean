import Winners.Proofs.Draws.Coins
import Winners.Proofs.Number.Exact
import Winners.Proofs.Tracker.Message
import Mathlib.Data.List.FinRange

set_option autoImplicit false

/-! # Codewords that go through a noisy channel

A perturbed codeword is flipped bit by bit, with all caches patched along the way. The noise is what
the coins show, one for each bit, and the message received is the one that is built at once from the
codeword with the noise added to it (`perturbed_codeword_is_noisy`): flips in a row lead from exact
caches to exact caches (`Message.foldl_flip_ofBits`), and the bits that they flip are those whose
coins have come out true (`Message.foldl_flipAt_picked`).
-/

namespace Winners

open Patch

/-! ## Noise on bits -/

/-- The coin of a bit decides whether the bit is picked. -/
theorem Sampler.mem_picked_finRange {n : Nat} {b : Fin n} {results : List Bool} :
    b ∈ picked (List.finRange n) results ↔ results[b.val]? = some true := by
  rw [mem_picked_iff (List.nodup_finRange n) (List.mem_finRange b), List.idxOf_finRange]

/-- Bits with noise differ from the bits in as many positions as there is noise. -/
theorem countP_zip_xor {bits noise : List Bool} (h : noise.length = bits.length) :
    ((bits.zipWith xor noise).zip bits).countP (fun (a, b) => a != b) = noise.count true := by
  induction bits generalizing noise with
  | nil =>
      rw [List.eq_nil_of_length_eq_zero h]
      rfl
  | cons bit bits ih =>
      cases noise with
      | nil => cases h
      | cons flipped noise =>
          have hrest := ih (Nat.succ.inj h)
          rw [List.zipWith_cons_cons, List.zip_cons_cons, List.countP_cons, hrest, List.count_cons]
          cases bit <;> cases flipped <;> rfl

namespace Message

variable {n m : Nat} {C : Code n m} {codeword : List Bool} {p : Binary64}

/-! ## The message received -/

theorem ofList_of_length {bits : List Bool} (h : bits.length = n) :
    ofList C bits = .ok (ofBits C ⟨bits.toArray, by simpa using h⟩) :=
  dif_pos h

theorem ofList_of_misfit {bits : List Bool} (h : bits.length ≠ n) :
    ofList C bits = .error (.invalid (.messageLength bits.length n)) :=
  dif_neg h

/-- Flipping the picked bits adds the noise to the codeword. -/
theorem foldl_flipAt_picked {noise : List Bool} (hcodeword : codeword.length = n)
    (hnoise : noise.length = n) :
    (Sampler.picked (List.finRange n) noise).foldl (fun bits (b : Fin n) => flipAt bits b)
        ⟨codeword.toArray, by simpa using hcodeword⟩ =
      ⟨(codeword.zipWith xor noise).toArray, by simp [hcodeword, hnoise]⟩ := by
  have hdistinct : (Sampler.picked (List.finRange n) noise).Nodup :=
    (List.nodup_finRange n).sublist (Sampler.picked_sublist _ _)
  apply ext_get
  intro b
  have hb : b.val < noise.length := hnoise ▸ b.isLt
  have hb' : b.val < codeword.length := hcodeword ▸ b.isLt
  have hboth : b.val < (codeword.zipWith xor noise).length := by simp [hb, hb']
  have hpicked : b ∈ Sampler.picked (List.finRange n) noise ↔ noise[b.val] = true := by
    rw [Sampler.mem_picked_finRange, List.getElem?_eq_getElem hb, Option.some.injEq]
  have hsum : (Vector.mk (codeword.zipWith xor noise).toArray
      (by simp [hcodeword, hnoise]) : Vector Bool n).get b = xor codeword[b.val] noise[b.val] := by
    show (codeword.zipWith xor noise)[b.val] = _
    rw [List.getElem_zipWith]
  have hget : (Vector.mk codeword.toArray (by simpa using hcodeword) : Vector Bool n).get b =
      codeword[b.val] := rfl
  rw [get_foldl_flipAt hdistinct, hget, hsum]
  by_cases hflip : noise[b.val] = true
  · rw [if_pos (hpicked.mpr hflip), hflip, Bool.xor_true]
  · rw [if_neg (hpicked.not.mpr hflip), Bool.eq_false_iff.mpr hflip, Bool.xor_false]

/-- Once the probability is in order, only the length can be refused. -/
theorem perturbed_of_probable (hp : Binary64.zero ≤ p ∧ p ≤ .ofNat 1) :
    perturbed C codeword p = (ofList C codeword).map fun x => do
      return (← Sampler.keepEach p (List.finRange n)).foldl flip x := by
  rw [perturbed, if_neg (not_not.mpr hp)]
  cases ofList C codeword <;> rfl

theorem perturbed_of_improbable (hp : ¬(Binary64.zero ≤ p ∧ p ≤ .ofNat 1)) :
    perturbed C codeword p = .error (.invalid (.flipProbability p)) := by
  rw [perturbed, if_pos hp]
  rfl

/-- **What a noisy channel makes of a codeword.** -/
structure Noisy (C : Code n m) (codeword : List Bool) (p : Binary64) : Prop where
  /-- One coin is tossed for each bit, in the order of the bits, and no more draws are made. The
  message received is that of the codeword with the noise added, caches and all. -/
  received : Binary64.zero ≤ p → p ≤ .ofNat 1 → codeword.length = n →
    ∃ sampler, perturbed C codeword p = .ok sampler ∧ ∀ draws,
      let noise := (Sampler.coins p n).run draws
      ∃ x, ofList C (codeword.zipWith xor noise.1) = .ok x ∧ sampler.run draws = (x, noise.2) ∧
        x.hammingDistance codeword = .ok (noise.1.count true)
  /-- The probability is looked at first, whatever the length is. -/
  improbable : p.isNaN = true ∨ p < .zero ∨ .ofNat 1 < p →
    perturbed C codeword p = .error (.invalid (.flipProbability p))
  misfit : Binary64.zero ≤ p → p ≤ .ofNat 1 → codeword.length ≠ n →
    perturbed C codeword p = .error (.invalid (.messageLength codeword.length n))

end Message

open Message

/-- **A perturbed codeword is the codeword with noise**, for every code, codeword and probability
and whatever is drawn, though it comes about by flips. -/
theorem perturbed_codeword_is_noisy {n m : Nat} {C : Code n m} (hC : C.Constructed)
    (codeword : List Bool) (p : Binary64) : Noisy C codeword p := by
  refine ⟨?_, ?_, ?_⟩
  · intro hzero hone hcodeword
    rw [perturbed_of_probable ⟨hzero, hone⟩, ofList_of_length hcodeword]
    refine ⟨_, rfl, ?_⟩
    intro draws noise
    have hnoise : noise.1.length = n := Sampler.length_coins p n draws
    have hsum : (codeword.zipWith xor noise.1).length = n := by simp [hcodeword, hnoise]
    refine ⟨_, ofList_of_length hsum, ?_, ?_⟩
    · rw [Sampler.run_bind, Sampler.run_pure, Sampler.run_keepEach, foldl_flip_ofBits hC.dual,
        List.length_finRange, foldl_flipAt_picked hcodeword hnoise]
    · rw [hammingDistance, if_pos hcodeword]
      exact congrArg Except.ok (countP_zip_xor (hnoise.trans hcodeword.symm))
  · intro hp
    exact perturbed_of_improbable (Binary64.improbable_iff.mpr hp)
  · intro hzero hone hlength
    rw [perturbed_of_probable ⟨hzero, hone⟩, ofList_of_misfit hlength]
    rfl

/-- The codeword of zeros with its first and last bit flipped, and a codeword that is too short. -/
theorem perturbed_codeword_is_noisy_overlappingChecks :
    overlappingChecks.Constructed ∧
    (∃ sampler, perturbed overlappingChecks [false, false, false] (.ofRatio 1 2) = .ok sampler ∧
      let x := (sampler.run ⟨[0, 0x8000000000000000, 1], .ofSeed 0⟩).1
      x = ofBits overlappingChecks #v[true, false, true] ∧
        x.hammingDistance [false, false, false] = .ok 2) ∧
    perturbed overlappingChecks [false] (.ofNat 2) =
      .error (.invalid (.flipProbability (.ofNat 2))) ∧
    perturbed overlappingChecks [false] (.ofNat 1) = .error (.invalid (.messageLength 1 3)) := by
  have hnoisy := perturbed_codeword_is_noisy constructed_overlappingChecks
  refine ⟨constructed_overlappingChecks, ?_, ?_, ?_⟩
  · obtain ⟨sampler, hsampler, hrun⟩ := (hnoisy [false, false, false] (.ofRatio 1 2)).received
      (by decide +kernel) (by decide +kernel) rfl
    obtain ⟨x, hx, hresult, hdistance⟩ := hrun ⟨[0, 0x8000000000000000, 1], .ofSeed 0⟩
    have hcoins : ((Sampler.coins (.ofRatio 1 2) 3).run
        ⟨[0, 0x8000000000000000, 1], .ofSeed 0⟩).1 = [true, false, true] := by decide +kernel
    rw [hcoins] at hx hdistance
    have hmade : (sampler.run ⟨[0, 0x8000000000000000, 1], .ofSeed 0⟩).1 = x :=
      congrArg Prod.fst hresult
    exact ⟨sampler, hsampler, hmade.trans (Except.ok.inj hx).symm, hmade ▸ hdistance⟩
  · exact (hnoisy [false] (.ofNat 2)).improbable (by decide +kernel)
  · exact (hnoisy [false] (.ofNat 1)).misfit (by decide +kernel) (by decide +kernel) (by decide)

end Winners

import Winners.Proofs.Tracker.Message

set_option autoImplicit false

/-! # Messages in machine words

A program keeps the score and the marginals of a message in words of 64 bits, where sums wrap
around. Reducing an integer to a word respects sums, differences and products, so everything that is
done with the caches in words is what is done with them in integers, reduced (`words_ofBits`,
`words_flip`). A message that is reached in words is thus the reduction of a message that is reached
in integers (`exists_words_of_reachable`).

A word stands for an integer between `-2 ^ 63` and `2 ^ 63`. If the weight of all checks lies below
`2 ^ 63`, all scores and marginals lie in between, and they are read off the words as they are
(`marginal_words`, `score_words`).
-/

namespace Winners

open Patch

/-! ## Weights -/

/-- A sum in words is the reduced one. -/
theorem ofInt_foldr_add {α : Type} (f : α → Int) (xs : List α) :
    Int64.ofInt (xs.foldr (fun x total => f x + total) 0) =
      xs.foldr (fun x total => Int64.ofInt (f x) + total) 0 := by
  induction xs with
  | nil => rfl
  | cons x xs ih => rw [List.foldr_cons, List.foldr_cons, Int64.ofInt_add, ih]

namespace Code

variable {n m : Nat} (C : Code n m)

theorem weights_words (c : Fin m) : C.words.weights.get c = Int64.ofInt (C.weights.get c) :=
  get_map _ C.weights c

theorem weightOfAll_words (checks : List (Fin m)) :
    C.words.weightOfAll checks = Int64.ofInt (C.weightOfAll checks) := by
  unfold weightOfAll
  simp only [weights_words]
  exact (ofInt_foldr_add _ checks).symm

theorem totalWeight_words : C.words.totalWeight = Int64.ofInt C.totalWeight :=
  C.weightOfAll_words _

end Code

namespace Message

variable {n m : Nat} {C : Code n m}

/-! ## Reduction -/

/-- The message with its score and marginals as words. -/
def words (x : Message C) : Message C.words where
  bits := x.bits
  satisfied := x.satisfied
  marginals := x.marginals.map Int64.ofInt
  score := Int64.ofInt x.score

theorem words_score (x : Message C) : x.words.score = Int64.ofInt x.score := rfl

theorem get_words_marginals (x : Message C) (b : Fin n) :
    x.words.marginals.get b = Int64.ofInt (x.marginals.get b) :=
  get_map _ x.marginals b

theorem words_shiftMarginals (shift : Int) (touched : List (Fin n)) (marginals : Vector Int n) :
    (shiftMarginals shift touched marginals).map Int64.ofInt =
      shiftMarginals (Int64.ofInt shift) touched (marginals.map Int64.ofInt) := by
  induction touched generalizing marginals with
  | nil => rfl
  | cons b touched ih =>
      have hset : (marginals.set b (marginals.get b + shift) b.isLt).map Int64.ofInt =
          (marginals.map Int64.ofInt).set b
            ((marginals.map Int64.ofInt).get b + Int64.ofInt shift) b.isLt := by
        rw [Vector.map_set, get_map, Int64.ofInt_add]
      exact (ih _).trans (congrArg (shiftMarginals _ touched) hset)

theorem gain_words (satisfied : Bool) (c : Fin m) :
    gain C.words satisfied c = Int64.ofInt (gain C satisfied c) := by
  cases satisfied with
  | true => exact (congrArg (- ·) (C.weights_words c)).trans (Int64.ofInt_neg _).symm
  | false => exact C.weights_words c

/-- **Caches computed from scratch in words** are the reduced ones. -/
theorem words_ofBits (bits : Vector Bool n) : (ofBits C bits).words = ofBits C.words bits := by
  let satisfied := Vector.ofFn (C.satisfies bits.get)
  have hmarginals : ∀ (cs : List (Fin m)) (marginals : Vector Int n),
      (cs.foldl (fun marginals c =>
        shiftMarginals (gain C (satisfied.get c) c) (C.elements.get c) marginals)
          marginals).map Int64.ofInt =
        cs.foldl (fun marginals c =>
          shiftMarginals (gain C.words (satisfied.get c) c) (C.elements.get c) marginals)
            (marginals.map Int64.ofInt) := by
    intro cs
    induction cs with
    | nil => exact fun _ => rfl
    | cons c cs ih =>
        intro marginals
        rw [List.foldl_cons, List.foldl_cons, ih, words_shiftMarginals, gain_words]
  apply Message.ext
  · rfl
  · rfl
  · refine (hmarginals (List.finRange m) (Vector.replicate n 0)).trans ?_
    rw [Vector.map_replicate]
    rfl
  · exact (C.weightOfAll_words _).symm

theorem words_toggleCheck (x : Message C) (c : Fin m) :
    (x.toggleCheck c).words = x.words.toggleCheck c := by
  have hweight := C.weights_words c
  unfold toggleCheck
  dsimp only
  rw [hweight]
  by_cases h : x.satisfied.get c
  · rw [if_pos h, if_pos (show x.words.satisfied.get c = true from h)]
    apply Message.ext
    · rfl
    · rfl
    · refine (words_shiftMarginals _ _ _).trans ?_
      rw [Int64.ofInt_mul]
      rfl
    · exact Int64.ofInt_sub _ _
  · rw [if_neg h, if_neg (show ¬x.words.satisfied.get c = true from h)]
    apply Message.ext
    · rfl
    · rfl
    · refine (words_shiftMarginals _ _ _).trans ?_
      rw [Int64.ofInt_mul]
      rfl
    · exact Int64.ofInt_add _ _

theorem words_foldl_toggleCheck (checks : List (Fin m)) (x : Message C) :
    (checks.foldl toggleCheck x).words = checks.foldl toggleCheck x.words := by
  induction checks generalizing x with
  | nil => rfl
  | cons c checks ih => rw [List.foldl_cons, List.foldl_cons, ih, words_toggleCheck]

/-- **Flips in words** are the reduced ones. -/
theorem words_flip (x : Message C) (b : Fin n) : (x.flip b).words = x.words.flip b :=
  words_foldl_toggleCheck _ _

theorem words_foldl_flip (flipped : List (Fin n)) (x : Message C) :
    (flipped.foldl flip x).words = flipped.foldl flip x.words := by
  induction flipped generalizing x with
  | nil => rfl
  | cons b flipped ih => rw [List.foldl_cons, List.foldl_cons, ih, words_flip]

/-! ## Histories -/

theorem attempt_words (x : Message C) (i : Nat) :
    (Tracker.attempt x i).words = Tracker.attempt x.words i := by
  by_cases h : i < n
  · rw [Tracker.attempt_of_ok (mutate_of_lt x h),
      Tracker.attempt_of_ok (mutate_of_lt x.words h), words_flip]
  · have hle := Nat.not_lt.mp h
    rw [Tracker.attempt_of_error (mutate_of_le x hle),
      Tracker.attempt_of_error (mutate_of_le x.words hle)]

theorem replay_words (x : Message C) (moves : List Nat) :
    (Tracker.replay x moves).words = Tracker.replay x.words moves := by
  induction moves generalizing x with
  | nil => rfl
  | cons i moves ih => rw [Tracker.replay_cons, Tracker.replay_cons, ih, attempt_words]

theorem ofList_words (bits : List Bool) : ofList C.words bits = (ofList C bits).map words := by
  unfold ofList
  split
  · exact congrArg Except.ok (words_ofBits _).symm
  · rfl

/-- A codeword that a noisy channel has passed on in words. -/
theorem exists_of_perturbed_words {codeword : List Bool} {p : Binary64}
    {sampler : Sampler (Message C.words)} (h : perturbed C.words codeword p = .ok sampler) :
    ∃ exact, perturbed C codeword p = .ok exact ∧
      ∀ draws, (sampler.run draws).1 = ((exact.run draws).1).words := by
  unfold perturbed at h ⊢
  split at h
  · cases h
  · next hp =>
      rw [if_neg hp]
      obtain ⟨x, hx, h⟩ := bind_eq_ok.mp h
      rw [ofList_words] at hx
      obtain ⟨y, hy, rfl⟩ := map_eq_ok.mp hx
      cases h
      refine ⟨_, bind_eq_ok.mpr ⟨y, hy, rfl⟩, ?_⟩
      intro draws
      exact (words_foldl_flip _ y).symm

theorem Fresh.exists_words {x : Message C.words} (h : x.Fresh) :
    ∃ y : Message C, y.Fresh ∧ x = y.words := by
  cases h with
  | ofList h =>
      rw [ofList_words] at h
      obtain ⟨y, hy, rfl⟩ := map_eq_ok.mp h
      exact ⟨y, .ofList hy, rfl⟩
  | zeros => exact ⟨_, .zeros, (words_ofBits _).symm⟩
  | random draws => exact ⟨_, .random draws, (words_ofBits _).symm⟩
  | perturbed h draws =>
      obtain ⟨exact, hexact, hrun⟩ := exists_of_perturbed_words h
      exact ⟨_, .perturbed hexact draws, hrun draws⟩

/-- **What is reached in words is reached in integers**, and reduced. -/
theorem exists_words_of_reachable {x : Message C.words}
    (h : Tracker.Reachable Message.Fresh x) :
    ∃ y : Message C, Tracker.Reachable Message.Fresh y ∧ x = y.words := by
  obtain ⟨x₀, moves, h₀, rfl⟩ := h
  obtain ⟨y₀, hy₀, rfl⟩ := h₀.exists_words
  exact ⟨_, ⟨y₀, moves, hy₀, rfl⟩, (replay_words y₀ moves).symm⟩

theorem eq_words_of_reachable (hC : C.Dual) {x : Message C.words}
    (h : Tracker.Reachable Message.Fresh x) : x = (ofBits C x.bits).words := by
  obtain ⟨y, hy, rfl⟩ := exists_words_of_reachable h
  exact congrArg words (eq_ofBits_of_reachable hC hy)

/-! ## Words as integers -/

/-- **Integers have the same word** just when they differ by a multiple of `2 ^ 64`. -/
theorem ofInt_eq_ofInt_iff (a b : Int) :
    Int64.ofInt a = Int64.ofInt b ↔ (2 ^ 64 : Int) ∣ a - b := by
  rw [← Int64.toInt_inj, Int64.toInt_ofInt, Int64.toInt_ofInt,
    Int.bmod_eq_bmod_iff_bmod_sub_eq_zero, ← Int.dvd_iff_bmod_eq_zero]
  rfl

theorem toInt_ofInt_of_total {total z : Int} (htotal : total < 2 ^ 63) (hlo : -total ≤ z)
    (hhi : z ≤ total) : (Int64.ofInt z).toInt = z :=
  Int64.toInt_ofInt_of_le (by omega) (by omega)

/-- A flip changes the score by the total weight at most. -/
theorem marginal_bounds (hC : C.Dual) (bits : Vector Bool n) (b : Fin n) :
    -C.totalWeight ≤ (ofBits C bits).marginals.get b ∧
      (ofBits C bits).marginals.get b ≤ C.totalWeight := by
  have hnonneg := Code.satisfiedWeight_nonneg hC
  have hle := Code.satisfiedWeight_le hC
  rw [ofBits_marginals_eq_sub hC]
  have hbefore := hnonneg bits.get
  have hbefore' := hle bits.get
  have hafter := hnonneg (flipAt bits b).get
  have hafter' := hle (flipAt bits b).get
  constructor <;> omega

theorem marginal_val_words (x : Message C.words) (b : Fin n) :
    Tracker.marginal x b.val = .ok (x.marginals.get b).toInt :=
  bind_checkIndex_val b _

section

variable (hC : C.Dual) (hfits : C.totalWeight < 2 ^ 63) (bits : Vector Bool n)
include hC hfits

/-- **The score is read off its word** if words have room for the total weight. -/
theorem score_words :
    Tracker.score (ofBits C bits).words = C.satisfiedWeight bits.get := by
  have hnonneg := Code.satisfiedWeight_nonneg hC bits.get
  have hle := Code.satisfiedWeight_le hC bits.get
  show (Int64.ofInt (ofBits C bits).score).toInt = _
  rw [ofBits_score]
  exact toInt_ofInt_of_total hfits (by omega) hle

/-- **A marginal is read off its word** if words have room for the total weight. -/
theorem marginal_words (b : Fin n) :
    Tracker.marginal (ofBits C bits).words b.val = .ok ((ofBits C bits).marginals.get b) := by
  obtain ⟨hlo, hhi⟩ := marginal_bounds hC bits b
  rw [marginal_val_words, get_words_marginals, toInt_ofInt_of_total hfits hlo hhi]

end

end Message

end Winners

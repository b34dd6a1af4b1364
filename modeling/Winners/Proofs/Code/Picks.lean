import Winners.Proofs.Code.Dual
import Winners.Proofs.Counting
import Mathlib.Data.Fintype.Card
import Mathlib.Data.List.Nodup

set_option autoImplicit false

/-! # Tanner codes are made of picks

Bit after bit, `degree` checks are drawn with replacement. `Drawn` relates a list of such draws to
the stream before and after them, and the draws of one bit are a window of the list (`ownPicks`).

The picks come sorted by bits, a code lists its bits check by check, and a check that a bit has
picked twice lists it once. The lists of a code know each other from both sides, so it is enough
that a check lists a bit just when the bit has picked it (`mem_transpose`), and that no list has
anything twice.
-/

namespace Winners

/-! ## Draws with replacement -/

namespace Sampler

variable {m : Nat}

/-- **Indices drawn one after the other**, with what is left of the stream. -/
inductive Drawn : Draws → List (Fin m) → Draws → Prop
  | nil {draws : Draws} : Drawn draws [] draws
  | cons {draws rest : Draws} {picks : List (Fin m)} (pos : 0 < m)
      (later : Drawn ((below m pos).run draws).2 picks rest) :
      Drawn draws (((below m pos).run draws).1 :: picks) rest

theorem Drawn.append {draws middle rest : Draws} {picks later : List (Fin m)}
    (h : Drawn draws picks middle) (hlater : Drawn middle later rest) :
    Drawn draws (picks ++ later) rest := by
  induction h with
  | nil => exact hlater
  | cons pos _ ih => exact .cons pos (ih hlater)

/-- As many draws from the same stream are the same ones. -/
theorem Drawn.unique {draws rest rest' : Draws} {picks picks' : List (Fin m)}
    (h : Drawn draws picks rest) (h' : Drawn draws picks' rest')
    (hlength : picks'.length = picks.length) : picks' = picks ∧ rest' = rest := by
  induction h generalizing picks' with
  | nil =>
      obtain rfl := List.length_eq_zero_iff.mp hlength
      cases h'
      exact ⟨rfl, rfl⟩
  | cons pos _ ih =>
      cases h' with
      | nil => cases hlength
      | cons _ hlater =>
          obtain ⟨rfl, rfl⟩ := ih hlater (Nat.succ.inj hlength)
          exact ⟨rfl, rfl⟩

theorem drawn_picksOf (pos : 0 < m) (degree : Nat) (draws : Draws) :
    Drawn draws ((Code.picksOf m pos degree).run draws).1
      ((Code.picksOf m pos degree).run draws).2 := by
  induction degree generalizing draws with
  | zero => exact .nil
  | succ degree ih =>
      rw [Code.picksOf, run_mapM_replicate_succ]
      exact .cons pos (ih _)

theorem length_picksOf (pos : 0 < m) (degree : Nat) (draws : Draws) :
    ((Code.picksOf m pos degree).run draws).1.length = degree := by
  rw [Code.picksOf, length_mapM, List.length_replicate]

/-- The picks of several bits. -/
theorem drawn_rows (pos : 0 < m) (degree n : Nat) (draws : Draws) :
    let rows := (List.replicate n ()).mapM fun _ => Code.picksOf m pos degree
    Drawn draws (rows.run draws).1.flatten (rows.run draws).2 ∧
      ∀ row ∈ (rows.run draws).1, row.length = degree := by
  induction n generalizing draws with
  | zero => exact ⟨.nil, fun row hrow => absurd hrow List.not_mem_nil⟩
  | succ n ih =>
      obtain ⟨hdrawn, hlength⟩ := ih ((Code.picksOf m pos degree).run draws).2
      intro rows
      rw [run_mapM_replicate_succ]
      refine ⟨(drawn_picksOf pos degree draws).append hdrawn, ?_⟩
      exact List.forall_mem_cons.mpr ⟨length_picksOf pos degree draws, hlength⟩

end Sampler

namespace Code

variable {n m degree : Nat}

/-! ## Counting incidences -/

/-- **Bits and checks have the same number of incidences.** -/
theorem Dual.sum_length_constraints {C : Code n m} (hC : C.Dual) :
    ∑ b, (C.constraints.get b).length = ∑ c, (C.elements.get c).length := by
  calc ∑ b, (C.constraints.get b).length
      = ∑ b, ∑ c, if c ∈ C.constraints.get b then 1 else 0 := by
        simp only [Counting.length_eq_sum (hC.nodup_constraints _)]
    _ = ∑ c, ∑ b, if b ∈ C.elements.get c then 1 else 0 := by
        rw [Finset.sum_comm]
        simp only [hC.mem_constraints]
    _ = ∑ c, (C.elements.get c).length := by
        simp only [Counting.length_eq_sum (hC.nodup_elements _)]

/-! ## Picks of a bit -/

/-- What bit number `b` has picked, if every bit in turn has picked `degree` times. -/
def ownPicks (degree : Nat) (picks : List (Fin m)) (b : Nat) : List (Fin m) :=
  (picks.drop (b * degree)).take degree

theorem ownPicks_flatten {rows : List (List (Fin m))} (h : ∀ row ∈ rows, row.length = degree)
    {b : Nat} {row : List (Fin m)} (hrow : rows[b]? = some row) :
    ownPicks degree rows.flatten b = row := by
  induction rows generalizing b with
  | nil => cases hrow
  | cons first rows ih =>
      obtain ⟨hfirst, hrows⟩ := List.forall_mem_cons.mp h
      cases b with
      | zero =>
          cases hrow
          rw [ownPicks, Nat.zero_mul, List.drop_zero, List.flatten_cons]
          exact List.take_left' hfirst
      | succ b =>
          rw [← ih hrows hrow, ownPicks, ownPicks, List.flatten_cons, Nat.succ_mul, Nat.add_comm,
            ← List.drop_drop, List.drop_left' hfirst]

/-- **A code of picks.** A check lists a bit if the bit has picked it, however often. -/
structure OfPicks (degree : Nat) (picks : List (Fin m)) (C : Code n m) : Prop where
  constraintsOf : ∀ b : Fin n, C.constraintsOf b = .ok (C.constraints.get b)
  elementsOf : ∀ c : Fin m, C.elementsOf c = .ok (C.elements.get c)
  mem_constraints : ∀ (b : Fin n) (c : Fin m),
    c ∈ C.constraints.get b ↔ c ∈ ownPicks degree picks b
  mem_elements : ∀ (b : Fin n) (c : Fin m), b ∈ C.elements.get c ↔ c ∈ ownPicks degree picks b
  constraints_ascending : ∀ b, (C.constraints.get b).Pairwise (· < ·)
  elements_ascending : ∀ c, (C.elements.get c).Pairwise (· < ·)
  one_le_length : 1 ≤ degree → ∀ b, 1 ≤ (C.constraints.get b).length
  length_le : ∀ b, (C.constraints.get b).length ≤ min degree m
  sum_length : ∑ b, (C.constraints.get b).length = ∑ c, (C.elements.get c).length

theorem ofPicks_ofElements {rows : Vector (List (Fin m)) n}
    (h : ∀ row ∈ rows.toList, row.length = degree) :
    OfPicks degree rows.toList.flatten (ofElements (transpose rows)) := by
  have hC : (ofElements (transpose rows)).Dual := dual_ofElements _
  have hown : ∀ b : Fin n, ownPicks degree rows.toList.flatten b = rows.get b :=
    fun b => ownPicks_flatten h (Patch.getElem?_toList rows b)
  have hlength : ∀ b : Fin n, (rows.get b).length = degree :=
    fun b => h _ (List.mem_of_getElem? (Patch.getElem?_toList rows b))
  have helements : ∀ (b : Fin n) (c : Fin m),
      b ∈ (ofElements (transpose rows)).elements.get c ↔ c ∈ rows.get b := by
    intro b c
    rw [elements_ofElements, mem_ascending, mem_transpose]
  have hconstraints : ∀ (b : Fin n) (c : Fin m),
      c ∈ (ofElements (transpose rows)).constraints.get b ↔ c ∈ rows.get b :=
    fun b c => hC.mem_constraints.trans (helements b c)
  refine ⟨fun b => bind_checkIndex_val b _, fun c => bind_checkIndex_val c _, ?_, ?_,
    hC.constraints_ascending, hC.elements_ascending, ?_, ?_, hC.sum_length_constraints⟩
  · simp only [hown]
    exact hconstraints
  · simp only [hown]
    exact helements
  · intro hdegree b
    obtain ⟨c, hc⟩ := List.exists_mem_of_length_pos (hdegree.trans_eq (hlength b).symm)
    exact List.length_pos_of_mem ((hconstraints b c).mpr hc)
  · intro b
    apply le_min
    · -- there are no more checks than picks
      have hsubset : (ofElements (transpose rows)).constraints.get b ⊆ rows.get b :=
        fun c => (hconstraints b c).mp
      exact ((hC.nodup_constraints b).subperm hsubset).length_le.trans_eq (hlength b)
    · exact (hC.nodup_constraints b).length_le_card.trans_eq (Fintype.card_fin m)

/-! ## Main statement -/

/-- The rows of picks that a code is made of. -/
theorem exists_rows (h : 0 < degree → 0 < m) : ∃ sampler : Sampler (Code n m),
    tanner n m degree = .ok sampler ∧ ∀ draws, ∃ rows : Vector (List (Fin m)) n,
      (∀ row ∈ rows.toList, row.length = degree) ∧
        Sampler.Drawn draws rows.toList.flatten (sampler.run draws).2 ∧
        (sampler.run draws).1 = ofElements (transpose rows) := by
  by_cases pos : 0 < m
  · refine ⟨_, dif_pos pos, fun draws => ?_⟩
    let picks : Sampler (Vector (List (Fin m)) n) :=
      (Vector.replicate n ()).mapM fun _ => picksOf m pos degree
    have hlist : Vector.toList <$> picks =
        (List.replicate n ()).mapM fun _ => picksOf m pos degree := by
      rw [toList_mapM, Vector.toList_replicate]
    obtain ⟨hdrawn, hlength⟩ := Sampler.drawn_rows pos degree n draws
    rw [← hlist] at hdrawn hlength
    exact ⟨(picks.run draws).1, hlength, hdrawn, rfl⟩
  · have hdegree : ¬0 < degree := fun hdegree => pos (h hdegree)
    obtain rfl : m = 0 := Nat.eq_zero_of_not_pos pos
    refine ⟨_, (dif_neg pos).trans (if_neg hdegree), fun draws => ?_⟩
    refine ⟨Vector.replicate n [], ?_, ?_, ?_⟩
    · intro row hrow
      rw [Vector.toList_replicate] at hrow
      rw [List.eq_of_mem_replicate hrow, Nat.eq_zero_of_not_pos hdegree, List.length_nil]
    · rw [Vector.toList_replicate, List.flatten_replicate_nil]
      exact .nil
    · exact congrArg ofElements (Vector.ext fun _ hi => absurd hi (Nat.not_lt_zero _))

/-- **Tanner codes respect the degree.** Whatever is drawn, exactly `n * degree` checks are drawn,
bit after bit, and each bit lies in those that it has picked itself. -/
theorem tanner_code_respects_degree {n m degree : Nat} (h : 0 < degree → 0 < m) :
    ∃ sampler : Sampler (Code n m), tanner n m degree = .ok sampler ∧
      ∀ draws, ∃ picks, picks.length = n * degree ∧
        Sampler.Drawn draws picks (sampler.run draws).2 ∧
        OfPicks degree picks (sampler.run draws).1 := by
  obtain ⟨sampler, hsampler, hrows⟩ := exists_rows (n := n) h
  refine ⟨sampler, hsampler, fun draws => ?_⟩
  obtain ⟨rows, hlength, hdrawn, hcode⟩ := hrows draws
  refine ⟨rows.toList.flatten, ?_, hdrawn, ?_⟩
  · have hall : ∀ length ∈ rows.toList.map List.length, length = degree :=
      List.forall_mem_map.mpr hlength
    rw [List.length_flatten, List.sum_eq_card_nsmul _ _ hall, List.length_map,
      Vector.length_toList, smul_eq_mul]
  · rw [hcode]
    exact ofPicks_ofElements hlength

/-- Four words with which the checks number 1, 1, 2 and 0 out of three are drawn. -/
def fourWords : Draws :=
  ⟨[0x8000000000000000, 0x8000000000000000, 0xc000000000000000, 0], .ofSeed 0⟩

/-- Two bits pick two checks each, and the first one picks the same check twice. -/
theorem tanner_code_respects_degree_fourWords :
    (0 < 2 → 0 < 3) ∧ ∃ sampler : Sampler (Code 2 3), tanner 2 3 2 = .ok sampler ∧
      (sampler.run fourWords).2 = .ofSeed 0 ∧ OfPicks 2 [1, 1, 2, 0] (sampler.run fourWords).1 ∧
      (sampler.run fourWords).1.constraintsOf 0 = .ok [1] ∧
      (sampler.run fourWords).1.constraintsOf 1 = .ok [0, 2] := by
  have hpos : 0 < 2 → 0 < 3 := fun _ => Nat.succ_pos 2
  obtain ⟨sampler, hsampler, hpicks⟩ := tanner_code_respects_degree (n := 2) hpos
  obtain ⟨picks, hlength, hdrawn, hcode⟩ := hpicks fourWords
  have hfour : Sampler.Drawn fourWords ([1, 1, 2, 0] : List (Fin 3)) (.ofSeed 0) := by
    have hdrawn := Sampler.drawn_picksOf (Nat.succ_pos 2) 4 fourWords
    have hpicks : ((picksOf 3 (Nat.succ_pos 2) 4).run fourWords).1 = [1, 1, 2, 0] := by
      decide +kernel
    have hrest : ((picksOf 3 (Nat.succ_pos 2) 4).run fourWords).2 = .ofSeed 0 := by
      decide +kernel
    rwa [hpicks, hrest] at hdrawn
  obtain ⟨rfl, hrest⟩ := hfour.unique hdrawn hlength
  have hfirst : (sampler.run fourWords).1.constraints.get 0 = [1] :=
    eq_of_ascending (hcode.constraints_ascending 0) (by decide) fun c =>
      (hcode.mem_constraints 0 c).trans (by revert c; decide)
  have hsecond : (sampler.run fourWords).1.constraints.get 1 = [0, 2] :=
    eq_of_ascending (hcode.constraints_ascending 1) (by decide) fun c =>
      (hcode.mem_constraints 1 c).trans (by revert c; decide)
  refine ⟨hpos, sampler, hsampler, hrest, hcode, ?_, ?_⟩
  · rw [← hfirst]
    exact hcode.constraintsOf 0
  · rw [← hsecond]
    exact hcode.constraintsOf 1

end Code

end Winners

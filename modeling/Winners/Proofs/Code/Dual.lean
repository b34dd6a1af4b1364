import Winners.Code.Random
import Winners.Proofs.Graph.Simple

set_option autoImplicit false

/-! # Constructed codes are dual

`Code.Dual` is the invariant of codes: a check lists a bit if and only if the bit lists the check,
all lists are strictly ascending, and weights are positive. `Code.Constructed` gathers the ways
to make a code, and `Constructed.dual` proves the invariant for each.
-/

namespace Winners

/-! ## The incidence from the other side -/

section

variable {a b : Nat}

theorem get_scatter (x : Fin a) {targets : List (Fin b)} (distinct : targets.Nodup)
    (rows : Vector (List (Fin a)) b) (y : Fin b) :
    (scatter x targets rows).get y =
      if y ∈ targets then x :: rows.get y else rows.get y :=
  Patch.get_patch (fun _ row => x :: row) distinct rows y

/-- Row `y` of the transpose lists the `x` whose row lists `y`. -/
theorem get_transpose {rows : Vector (List (Fin b)) a} (distinct : ∀ x, (rows.get x).Nodup)
    (y : Fin b) :
    (transpose rows).get y = (List.finRange a).filter fun x => decide (y ∈ rows.get x) := by
  have key : ∀ xs : List (Fin a),
      (xs.foldr (fun x result => scatter x (rows.get x) result)
        (Vector.replicate b [])).get y = xs.filter fun x => decide (y ∈ rows.get x) := by
    intro xs
    induction xs with
    | nil => exact Patch.get_replicate _ y
    | cons x xs ih =>
        rw [List.foldr_cons, get_scatter x (distinct x), ih, List.filter_cons]
        by_cases h : y ∈ rows.get x <;> simp [h]
  exact key (List.finRange a)

theorem mem_scatter {x z : Fin a} {targets : List (Fin b)}
    {rows : Vector (List (Fin a)) b} {y : Fin b} :
    z ∈ (scatter x targets rows).get y ↔ (z = x ∧ y ∈ targets) ∨ z ∈ rows.get y := by
  unfold scatter
  induction targets generalizing rows with
  | nil => simp
  | cons target targets ih =>
      rw [List.foldl_cons, ih, Patch.get_set]
      by_cases hy : y = target
      · subst hy
        simp only [if_true, List.mem_cons]
        tauto
      · rw [if_neg hy, List.mem_cons, or_iff_right hy]

/-- It makes no difference here if rows list something twice. -/
theorem mem_transpose {rows : Vector (List (Fin b)) a} {x : Fin a} {y : Fin b} :
    x ∈ (transpose rows).get y ↔ y ∈ rows.get x := by
  have key : ∀ xs : List (Fin a), x ∈ (xs.foldr (fun x result => scatter x (rows.get x) result)
      (Vector.replicate b [])).get y ↔ x ∈ xs ∧ y ∈ rows.get x := by
    intro xs
    induction xs with
    | nil => simp
    | cons z xs ih =>
        rw [List.foldr_cons, mem_scatter, ih, List.mem_cons, or_and_right]
        apply or_congr_left
        apply and_congr_right
        rintro rfl
        rfl
  rw [transpose, key, and_iff_right (List.mem_finRange x)]

end

namespace Code

variable {n m : Nat}

/-! ## The invariant -/

/-- **The invariant of codes.** -/
structure Dual (C : Code n m) : Prop where
  elements_ascending : ∀ c, (C.elements.get c).Pairwise (· < ·)
  constraints_ascending : ∀ b, (C.constraints.get b).Pairwise (· < ·)
  mem_constraints : ∀ {b c}, c ∈ C.constraints.get b ↔ b ∈ C.elements.get c
  weights_pos : ∀ c, 0 < C.weights.get c

namespace Dual

variable {C : Code n m}

theorem nodup_elements (hC : C.Dual) (c : Fin m) : (C.elements.get c).Nodup :=
  (hC.elements_ascending c).imp ne_of_lt

theorem nodup_constraints (hC : C.Dual) (b : Fin n) : (C.constraints.get b).Nodup :=
  (hC.constraints_ascending b).imp ne_of_lt

end Dual

/-! ## The constructors -/

theorem elements_ofElements (elements : Vector (List (Fin n)) m) (c : Fin m) :
    (ofElements elements).elements.get c = ascending (elements.get c) :=
  Patch.get_map ascending elements c

theorem dual_ofElements (elements : Vector (List (Fin n)) m) : (ofElements elements).Dual := by
  have hasc : ∀ c, ((ofElements elements).elements.get c).Pairwise (· < ·) := by
    intro c
    rw [elements_ofElements]
    exact pairwise_ascending (elements.get c)
  have hcol : ∀ b, (ofElements elements).constraints.get b =
      (List.finRange m).filter fun c => decide (b ∈ (ofElements elements).elements.get c) :=
    fun b => get_transpose (fun c => (hasc c).imp ne_of_lt) b
  refine ⟨hasc, ?_, ?_, ?_⟩
  · intro b
    rw [hcol]
    exact (List.pairwise_lt_finRange m).filter _
  · intro b c
    rw [hcol]
    simp
  · intro c
    have hone : (ofElements elements).weights.get c = 1 := Patch.get_replicate 1 c
    rw [hone]
    exact Int.one_pos

theorem dual_ofChecks {checks : Vector (List Nat) m} {C : Code n m}
    (h : ofChecks n checks = .ok C) : C.Dual := by
  obtain ⟨elements, -, h⟩ := bind_eq_ok.mp h
  cases h
  exact dual_ofElements elements

theorem run_gallager {j k : Nat} {shuffle : Sampler.Rearrangement n}
    {sampler : Sampler (Code n (j * (n / k)))} (h : gallager n j k shuffle = .ok sampler)
    (draws : Draws) :
    (sampler.run draws).1 = ofElements (stackBlocks k ((blockOrders shuffle j).run draws).1) := by
  unfold gallager at h
  by_cases hpos : n = 0 ∨ j = 0 ∨ k = 0
  · rw [if_pos hpos] at h
    cases h
  · rw [if_neg hpos] at h
    by_cases hdiv : n % k ≠ 0
    · rw [if_pos hdiv] at h
      cases h
    · rw [if_neg hdiv] at h
      cases h
      rfl

theorem run_tanner {degree : Nat} {sampler : Sampler (Code n m)} (pos : 0 < m)
    (h : tanner n m degree = .ok sampler) (draws : Draws) :
    (sampler.run draws).1 = ofElements (transpose
      (((Vector.replicate n ()).mapM fun _ => picksOf m pos degree).run draws).1) := by
  rw [tanner, dif_pos pos] at h
  cases h
  rfl

theorem run_tanner_of_no_checks {degree : Nat} {sampler : Sampler (Code n m)} (zero : ¬0 < m)
    (h : tanner n m degree = .ok sampler) (draws : Draws) :
    (sampler.run draws).1 = ofElements (Vector.replicate m []) := by
  rw [tanner, dif_neg zero] at h
  split at h
  · cases h
  · cases h
    rfl

theorem dual_gallager {j k : Nat} {shuffle : Sampler.Rearrangement n}
    {sampler : Sampler (Code n (j * (n / k)))} (h : gallager n j k shuffle = .ok sampler)
    (draws : Draws) : (sampler.run draws).1.Dual := by
  rw [run_gallager h]
  exact dual_ofElements _

theorem dual_tanner {degree : Nat} {sampler : Sampler (Code n m)}
    (h : tanner n m degree = .ok sampler) (draws : Draws) : (sampler.run draws).1.Dual := by
  by_cases pos : 0 < m
  · rw [run_tanner pos h]
    exact dual_ofElements _
  · rw [run_tanner_of_no_checks pos h]
    exact dual_ofElements _

/-- Weights are accepted if they are positive and one for each check. -/
theorem withWeights_eq_ok {C C' : Code n m} {weights : List Int} :
    C.withWeights weights = .ok C' ↔ (∀ w ∈ weights, 0 < w) ∧ C'.weights.toList = weights ∧
      C'.elements = C.elements ∧ C'.constraints = C.constraints := by
  have hfind : weights.find? (· ≤ 0) = none ↔ ∀ w ∈ weights, 0 < w := by
    simp [List.find?_eq_none]
  constructor
  · intro h
    unfold Code.withWeights at h
    split at h
    · split at h
      · cases h
      · next hnone =>
          cases h
          exact ⟨hfind.mp hnone, rfl, rfl, rfl⟩
    · cases h
  · rintro ⟨hpos, rfl, helements, hconstraints⟩
    obtain ⟨elements, constraints, weights⟩ := C'
    dsimp only at hpos hfind helements hconstraints ⊢
    rw [Code.withWeights, dif_pos Vector.length_toList, hfind.mpr hpos, helements, hconstraints]
    rfl

theorem Dual.withWeights {C C' : Code n m} (hC : C.Dual) {weights : List Int}
    (h : C.withWeights weights = .ok C') : C'.Dual := by
  obtain ⟨hpos, hweights, helements, hconstraints⟩ := withWeights_eq_ok.mp h
  refine ⟨?_, ?_, ?_, ?_⟩
  · rw [helements]
    exact hC.elements_ascending
  · rw [hconstraints]
    exact hC.constraints_ascending
  · rw [helements, hconstraints]
    exact hC.mem_constraints
  · intro c
    apply hpos
    rw [← hweights, Vector.mem_toList_iff]
    exact Vector.getElem_mem c.isLt

/-! ## All constructors -/

/-- The codes that can be made. -/
inductive Constructed : {n m : Nat} → Code n m → Prop
  | ofChecks {n m : Nat} {checks : Vector (List Nat) m} {C : Code n m}
      (h : Code.ofChecks n checks = .ok C) : Constructed C
  | gallager {n j k : Nat} {shuffle : Sampler.Rearrangement n}
      {sampler : Sampler (Code n (j * (n / k)))} (h : Code.gallager n j k shuffle = .ok sampler)
      (draws : Draws) : Constructed (sampler.run draws).1
  | tanner {n m degree : Nat} {sampler : Sampler (Code n m)}
      (h : Code.tanner n m degree = .ok sampler) (draws : Draws) :
      Constructed (sampler.run draws).1
  | withWeights {n m : Nat} {C C' : Code n m} {weights : List Int} (hC : Constructed C)
      (h : C.withWeights weights = .ok C') : Constructed C'

/-- **Every constructed code is dual.** -/
theorem Constructed.dual {C : Code n m} (hC : C.Constructed) : C.Dual := by
  induction hC with
  | ofChecks h => exact dual_ofChecks h
  | gallager h draws => exact dual_gallager h draws
  | tanner h draws => exact dual_tanner h draws
  | withWeights _ h ih => exact ih.withWeights h

end Code

end Winners

import Winners.Proofs.Code.Dual
import Winners.Proofs.Counting

set_option autoImplicit false

/-! # Weights of checks

The weight of some checks is a sum over all of them. Since weights are positive, a message
satisfies checks of at most the total weight, and of the total weight just when it satisfies all.
-/

namespace Winners.Code

open Counting

variable {n m : Nat} {C : Code n m}

theorem weightOfAll_eq_sum (C : Code n m) {checks : List (Fin m)} (distinct : checks.Nodup) :
    C.weightOfAll checks = ∑ c, if c ∈ checks then C.weights.get c else 0 :=
  foldr_add_eq_sum distinct C.weights.get

theorem weightOfAll_filter (C : Code n m) (p : Fin m → Bool) :
    C.weightOfAll ((List.finRange m).filter p) = ∑ c, if p c then C.weights.get c else 0 := by
  rw [weightOfAll_eq_sum C ((List.nodup_finRange m).filter p)]
  apply Finset.sum_congr rfl
  intro c _
  simp

theorem totalWeight_eq_sum (C : Code n m) : C.totalWeight = ∑ c, C.weights.get c := by
  rw [totalWeight, weightOfAll_eq_sum C (List.nodup_finRange m)]
  apply Finset.sum_congr rfl
  intro c _
  exact if_pos (List.mem_finRange c)

/-- The weight of some checks together is not negative. -/
theorem Dual.weightOfAll_nonneg (hC : C.Dual) (checks : List (Fin m)) :
    0 ≤ C.weightOfAll checks := by
  induction checks with
  | nil => exact le_refl 0
  | cons c checks ih => exact Int.add_nonneg (hC.weights_pos c).le ih

theorem satisfiedWeight_nonneg (hC : C.Dual) (message : Fin n → Bool) :
    0 ≤ C.satisfiedWeight message :=
  hC.weightOfAll_nonneg _

theorem satisfiedWeight_term_le (hC : C.Dual) (message : Fin n → Bool) (c : Fin m) :
    (if C.satisfies message c then C.weights.get c else 0) ≤ C.weights.get c := by
  split
  · exact le_refl _
  · exact (hC.weights_pos c).le

theorem satisfiedWeight_le (hC : C.Dual) (message : Fin n → Bool) :
    C.satisfiedWeight message ≤ C.totalWeight := by
  rw [satisfiedWeight, weightOfAll_filter, totalWeight_eq_sum]
  exact Finset.sum_le_sum fun c _ => satisfiedWeight_term_le hC message c

/-- Only a message that satisfies every check reaches the total weight. -/
theorem satisfiedWeight_eq_totalWeight_iff (hC : C.Dual) (message : Fin n → Bool) :
    C.satisfiedWeight message = C.totalWeight ↔ ∀ c, C.satisfies message c = true := by
  rw [satisfiedWeight, weightOfAll_filter, totalWeight_eq_sum,
    Finset.sum_eq_sum_iff_of_le fun c _ => satisfiedWeight_term_le hC message c]
  constructor
  · intro h c
    have hterm := h c (Finset.mem_univ c)
    have hpos := hC.weights_pos c
    by_contra hunsatisfied
    rw [if_neg hunsatisfied] at hterm
    omega
  · intro h c _
    rw [if_pos (h c)]

end Winners.Code

import Winners.Proofs.Patch
import Mathlib.Algebra.BigOperators.Fin
import Mathlib.Algebra.Order.BigOperators.Group.Finset
import Mathlib.Tactic.Ring

set_option autoImplicit false

/-! # Counting

Counts over neighbour lists and sums over all ordered pairs. A count over a list without
repetitions is a sum over all elements (`countP_eq_sum`), it moves by one when the predicate
changes at one entry (`countP_change`), and a symmetric matrix with an empty diagonal is summed
over ordered pairs twice over (`sum_pairs`).
-/

namespace Winners.Counting

variable {n : Nat}

/-! ## Lists -/

/-- A count over a list without repetitions, as a sum. -/
theorem countP_eq_sum {xs : List (Fin n)} (distinct : xs.Nodup) (p : Fin n → Bool) :
    xs.countP p = ∑ v, if v ∈ xs ∧ p v then 1 else 0 := by
  rw [← Finset.card_filter, List.countP_eq_length_filter,
    ← List.toFinset_card_of_nodup (distinct.filter p)]
  congr 1
  ext v
  simp

/-- The length of a list without repetitions, as a sum. -/
theorem length_eq_sum {xs : List (Fin n)} (distinct : xs.Nodup) :
    xs.length = ∑ v, if v ∈ xs then 1 else 0 := by
  rw [← List.countP_true, countP_eq_sum distinct]
  simp

theorem countP_and (xs : List (Fin n)) (b : Bool) (p : Fin n → Bool) :
    (xs.countP fun v => b && p v) = if b then xs.countP p else 0 := by
  cases b <;> simp

/-- The sum over a list without repetitions, as a sum over all elements. -/
theorem foldr_add_eq_sum {xs : List (Fin n)} (distinct : xs.Nodup) (f : Fin n → Int) :
    xs.foldr (fun v total => f v + total) 0 = ∑ v, if v ∈ xs then f v else 0 := by
  rw [← Finset.sum_filter]
  have hset : Finset.univ.filter (· ∈ xs) = xs.toFinset := by
    ext v
    simp
  rw [hset, List.sum_toFinset f distinct]
  induction xs with
  | nil => rfl
  | cons v xs ih =>
      rw [List.foldr_cons, List.map_cons, List.sum_cons,
        ih (List.nodup_cons.mp distinct).2 (by ext; simp)]

theorem sum_mem_cons {x : Fin n} {xs : List (Fin n)} (hx : x ∉ xs) (f : Fin n → Int) :
    (∑ v, if v ∈ x :: xs then f v else 0) = f x + ∑ v, if v ∈ xs then f v else 0 := by
  have hsplit : ∀ v, (if v ∈ x :: xs then f v else 0) =
      (if v = x then f v else 0) + if v ∈ xs then f v else 0 := by
    intro v
    by_cases h : v = x
    · subst h
      simp [hx]
    · simp [h]
  simp only [hsplit, Finset.sum_add_distrib, Finset.sum_ite_eq', Finset.mem_univ, if_true]

/-- A predicate that changes at `x` only changes a count by one at most, up or down with `x`. -/
theorem countP_change {xs : List (Fin n)} (distinct : xs.Nodup) {x : Fin n} {p q : Fin n → Bool}
    (same : ∀ v, v ≠ x → q v = p v) :
    xs.countP q + (if x ∈ xs ∧ p x then 1 else 0) =
      xs.countP p + (if x ∈ xs ∧ q x then 1 else 0) := by
  induction xs with
  | nil => simp
  | cons v xs ih =>
      -- `x` is met at most once: it is the head, or in the tail, or nowhere
      obtain ⟨hv, hxs⟩ := List.nodup_cons.mp distinct
      have ih := ih hxs
      rw [List.countP_cons, List.countP_cons]
      by_cases h : v = x
      · subst h
        simp only [hv, false_and, if_false, List.mem_cons_self, true_and] at ih ⊢
        omega
      · have hx : x ∈ v :: xs ↔ x ∈ xs := by simp [Ne.symm h]
        simp only [same v h, hx]
        omega

/-- Every entry of a list is of one kind. -/
theorem sum_countP_eq_length {α : Type} {k : Nat} (xs : List α) (kind : α → Fin k) :
    (∑ c, xs.countP fun x => kind x = c) = xs.length := by
  induction xs with
  | nil => simp
  | cons x xs ih => simp [List.countP_cons, Finset.sum_add_distrib, ih]

/-! ## Ordered pairs -/

/-- **Handshake.** Each unordered pair is met from both of its ends. -/
theorem sum_pairs (a : Fin n → Fin n → Nat) (symm : ∀ u v, a u v = a v u)
    (diag : ∀ u, a u u = 0) :
    ∑ u, ∑ v, a u v = 2 * ∑ u, ∑ v, if u < v then a u v else 0 := by
  have hsplit : ∀ u v, a u v = (if u < v then a u v else 0) + (if v < u then a u v else 0) := by
    intro u v
    rcases lt_trichotomy u v with h | h | h
    · simp [h, not_lt.mpr h.le]
    · simp [h, diag]
    · simp [h, not_lt.mpr h.le]
  have hswap : ∑ u, ∑ v, (if v < u then a u v else 0) = ∑ u, ∑ v, if u < v then a u v else 0 := by
    rw [Finset.sum_comm]
    simp only [symm]
  calc ∑ u, ∑ v, a u v
      = ∑ u, ∑ v, ((if u < v then a u v else 0) + (if v < u then a u v else 0)) := by
        simp only [← hsplit]
    _ = 2 * ∑ u, ∑ v, if u < v then a u v else 0 := by
        simp only [Finset.sum_add_distrib, hswap]
        ring

/-- A symmetric matrix that lives on one row and column, and not where they meet, is summed by
summing the row twice. -/
theorem sum_cross (d : Fin n → Fin n → Int) (x : Fin n) (symm : ∀ u v, d u v = d v u)
    (diag : d x x = 0) (off : ∀ u v, u ≠ x → v ≠ x → d u v = 0) :
    ∑ u, ∑ v, d u v = 2 * ∑ v, d x v := by
  have hrow : ∀ u, ∑ v, d u v = d x u + if u = x then ∑ v, d x v else 0 := by
    intro u
    by_cases h : u = x
    · rw [h, diag, if_pos rfl, zero_add]
    · rw [if_neg h, add_zero, Finset.sum_eq_single x]
      · exact symm u x
      · intro v _ hv
        exact off u v h hv
      · intro hx
        exact absurd (Finset.mem_univ x) hx
  rw [Finset.sum_congr rfl fun u _ => hrow u, Finset.sum_add_distrib, Finset.sum_ite_eq',
    if_pos (Finset.mem_univ x)]
  ring

end Winners.Counting

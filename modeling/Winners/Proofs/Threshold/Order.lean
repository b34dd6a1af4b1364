import Winners.Proofs.Number.Exact
import Winners.Threshold.Direction
import Mathlib.Order.Basic
import Mathlib.Algebra.Order.Ring.Int

set_option autoImplicit false

/-! # The order of improvement

To improve on a value is a strict order, in which a NaN is related to nothing. Between numbers it
is linear up to ties: the better one leaves less room for improvement (`improves_iff_room_lt`), and
room is a natural number.
-/

namespace Winners.Direction

variable {d : Direction} {x y z : Binary64}

theorem improves_self (d : Direction) (x : Binary64) : d.improves x x = false := by
  cases d with
  | minimize => exact decide_eq_false fun h => lt_irrefl _ h.2.2
  | maximize => exact decide_eq_false fun h => lt_irrefl _ h.2.2

theorem improves_trans (hxy : d.improves x y = true) (hyz : d.improves y z = true) :
    d.improves x z = true := by
  cases d with
  | minimize =>
      obtain ⟨hx, -, hxy⟩ := of_decide_eq_true hxy
      obtain ⟨-, hz, hyz⟩ := of_decide_eq_true hyz
      exact decide_eq_true ⟨hx, hz, hxy.trans hyz⟩
  | maximize =>
      obtain ⟨-, hx, hyx⟩ := of_decide_eq_true hxy
      obtain ⟨hz, -, hzy⟩ := of_decide_eq_true hyz
      exact decide_eq_true ⟨hz, hx, hzy.trans hyx⟩

theorem improves_asymm (h : d.improves x y = true) : d.improves y x = false := by
  by_contra hyx
  have hxx := improves_trans h (Bool.eq_true_of_not_eq_false hyx)
  rw [improves_self] at hxx
  cases hxx

/-- Of two numbers the better one leaves less room. -/
theorem improves_iff_room_lt (hx : x.isNaN = false) (hy : y.isNaN = false) :
    d.improves x y = true ↔ d.room x < d.room y := by
  refine ⟨room_lt_of_improves, fun h => ?_⟩
  have := x.rank_lt
  have := x.neg_lt_rank
  have := y.rank_lt
  have := y.neg_lt_rank
  cases d with
  | minimize =>
      simp only [room] at h
      exact decide_eq_true ⟨hx, hy, by omega⟩
  | maximize =>
      simp only [room] at h
      exact decide_eq_true ⟨hy, hx, by omega⟩

theorem improves_eq_false_iff (hx : x.isNaN = false) (hy : y.isNaN = false) :
    d.improves x y = false ↔ d.room y ≤ d.room x := by
  rw [← Bool.not_eq_true, improves_iff_room_lt hx hy, not_lt]

/-- What passes a threshold at the goal passes the goal. -/
theorem passes_trans {fitness threshold goal : Binary64}
    (hpasses : d.passes fitness threshold = true) (hreached : d.reached threshold goal = true) :
    d.passes fitness goal = true := by
  unfold reached at hreached
  cases d with
  | minimize =>
      simp only [passes, decide_eq_true_eq] at hpasses hreached ⊢
      exact Binary64.le_trans hpasses hreached
  | maximize =>
      simp only [passes, decide_eq_true_eq] at hpasses hreached ⊢
      exact Binary64.le_trans hreached hpasses

/-- **No chain of improvements is infinite**, since each of them uses up room. -/
theorem not_improves_forever (d : Direction) (chain : Nat → Binary64) :
    ¬∀ i, d.improves (chain (i + 1)) (chain i) = true := by
  intro h
  have hroom : ∀ i, d.room (chain i) + i ≤ d.room (chain 0) := by
    intro i
    induction i with
    | zero => exact Nat.le_refl _
    | succ i ih =>
        have := room_lt_of_improves (h i)
        omega
  have := hroom (d.room (chain 0) + 1)
  omega

end Winners.Direction

import Winners.Proofs.Threshold.Goal
import Winners.Proofs.Threshold.Median

set_option autoImplicit false

/-! # Proposals ignore the order of the slots

The total order tells all encodings apart, also the two zeros, so a list of values has a single
arrangement in that order, whatever sort makes it and whether or not the sort keeps equal values
in their order (`eq_ranked`). The median is read off this arrangement, and the schedules that come
with the library look at the fitness of a population for its median only. So they propose the same
bits for the same values in other slots.

If the number of values is odd, the median is one of them, and it stands in the middle
(`InTheMiddle`). That alone would leave the sign of a zero open.
-/

namespace Winners

open Binary64

/-! ## One arrangement -/

/-- **No two encodings share a position in the total order.** -/
theorem Binary64.totalRank_injective : Function.Injective totalRank := by
  intro x y h
  have hx := x.bits.toNat_lt
  have hy := y.bits.toNat_lt
  have hbits : x.bits.toNat = y.bits.toNat := by
    simp only [totalRank, isNegative, magnitude, decide_eq_true_eq] at h
    -- a sign bit that only one of the two has puts them on different sides of zero
    split at h <;> split at h <;> omega
  exact congrArg mk (UInt64.toNat_inj.mp hbits)

theorem Binary64.totalLe_antisymm {x y : Binary64} (hxy : totalLe x y = true)
    (hyx : totalLe y x = true) : x = y :=
  totalRank_injective (Int.le_antisymm (of_decide_eq_true hxy) (of_decide_eq_true hyx))

section

variable {values reordered : List Binary64}

/-- **Values have one arrangement in the total order.** -/
theorem eq_ranked {sorted : List Binary64} (hperm : sorted.Perm values)
    (hsorted : sorted.Pairwise fun x y => totalLe x y = true) : sorted = ranked values :=
  (hperm.trans (ranked_perm values).symm).eq_of_pairwise
    (fun _ _ _ _ hxy hyx => totalLe_antisymm hxy hyx) hsorted (pairwise_totalLe_ranked values)

theorem ranked_congr (h : reordered.Perm values) : ranked reordered = ranked values :=
  eq_ranked ((ranked_perm reordered).trans h) (pairwise_totalLe_ranked reordered)

theorem median_congr (h : reordered.Perm values) : median reordered = median values := by
  have hsorted : reordered.mergeSort totalLe = values.mergeSort totalLe := ranked_congr h
  rw [median, median, hsorted]

/-! ## The middle value -/

/-- **A value in the middle** of `2 * m + 1` values: it is one of them, no less than `m + 1` of them
and no greater than `m + 1` of them, itself among both. -/
structure InTheMiddle (values : List Binary64) (m : Nat) (x : Binary64) : Prop where
  mem : x ∈ values
  below : m + 1 ≤ values.countP (· ≤ x)
  above : m + 1 ≤ values.countP (x ≤ ·)

/-- **The median of an odd number of values stands in their middle.** -/
theorem exists_inTheMiddle {m : Nat} (hnum : ∀ x ∈ values, x.isNaN = false)
    (hlength : values.length = 2 * m + 1) :
    ∃ middle, median values = some middle ∧ InTheMiddle values m middle := by
  have hperm := ranked_perm values
  have hranked : (ranked values).length = 2 * m + 1 := hperm.length_eq.trans hlength
  have hodd : (ranked values).length % 2 ≠ 0 := by omega
  have hne : values ≠ [] := List.ne_nil_of_length_pos (by omega)
  obtain ⟨middle, upper, hmiddles⟩ := exists_middles (ranked_ne_nil hne)
  obtain rfl : middle = upper := hmiddles.eq_of_odd hodd
  have hmem : middle ∈ values := hperm.mem_iff.mp (List.mem_of_getElem? hmiddles.upper)
  have hself : middle ≤ middle := ⟨hnum _ hmem, hnum _ hmem, Int.le_refl _⟩
  have hnumRanked : ∀ x ∈ ranked values, x.isNaN = false := fun x hx =>
    hnum x (hperm.mem_iff.mp hx)
  -- in either direction half of the values, rounded up, pass the one in the middle
  have hhalf : ∀ d : Direction, m + 1 ≤ values.countP (d.passes · middle) := by
    intro d
    have hpasses := half_passes d (pairwise_ranked values) hnumRanked hmiddles hself hself
    rw [hperm.countP_eq] at hpasses
    omega
  refine ⟨middle, ?_, hmem, hhalf .minimize, hhalf .maximize⟩
  rw [median_eq hmiddles, if_neg hodd]

/-! ## Schedules -/

theorem startingPoint_congr (current : Binary64) (h : reordered.Perm values) :
    startingPoint current reordered = startingPoint current values := by
  rw [startingPoint, startingPoint, median_congr h]

theorem MedianSchedule.propose_congr (s : MedianSchedule) (current : Binary64)
    (h : reordered.Perm values) : s.propose current reordered = s.propose current values := by
  rw [propose, propose, median_congr h]

theorem FixedStepSchedule.propose_congr (s : FixedStepSchedule) (current : Binary64)
    (h : reordered.Perm values) : s.propose current reordered = s.propose current values := by
  rw [propose, propose, startingPoint_congr current h]

theorem FractionSchedule.propose_congr (s : FractionSchedule) (current : Binary64)
    (h : reordered.Perm values) : s.propose current reordered = s.propose current values := by
  rw [propose, propose, startingPoint_congr current h]

/-- **Schedules that come with the library propose the same for reordered values.** They hand their
memory on as it is. -/
theorem Schedule.Shipped.propose_congr {σ : Type} {schedule : Schedule σ} (h : schedule.Shipped)
    (current : Binary64) (plan : σ) (hperm : reordered.Perm values) :
    schedule.propose current reordered plan = schedule.propose current values plan := by
  cases h with
  | median s => exact congrArg (·, plan) (s.propose_congr current hperm)
  | fixedStep s => exact congrArg (·, plan) (s.propose_congr current hperm)
  | fraction s => exact congrArg (·, plan) (s.propose_congr current hperm)

end

/-! ## Main statement -/

/-- **Proposals ignore the order of the slots.** Whatever its parameters are, a schedule that comes
with the library proposes the same bits from a threshold for the same fitness values in any order.
The median of `2 * m + 1` numbers is one of them, and at least `m + 1` of them are no greater and at
least `m + 1` no less. -/
theorem proposals_ignore_slot_order :
    (∀ {σ : Type} {schedule : Schedule σ}, schedule.Shipped → ∀ (current : Binary64) (plan : σ)
      {fitness reordered : List Binary64}, reordered.Perm fitness →
      schedule.propose current reordered plan = schedule.propose current fitness plan) ∧
    (∀ {values : List Binary64} {m : Nat}, (∀ x ∈ values, x.isNaN = false) →
      values.length = 2 * m + 1 →
      ∃ middle, median values = some middle ∧ InTheMiddle values m middle) := by
  refine ⟨?_, exists_inTheMiddle⟩
  intro σ schedule hshipped current plan fitness reordered hperm
  exact hshipped.propose_congr current plan hperm

/-- Both zeros and a lesser number. The negative zero stands in the middle, in any order of the
three, and it is proposed with its sign. -/
theorem proposals_ignore_slot_order_zeros :
    let fitness : List Binary64 := [zero, (ofNat 1).negate, zero.negate]
    let reordered : List Binary64 := [zero.negate, zero, (ofNat 1).negate]
    let s : MedianSchedule := { direction := .minimize, goal := (ofNat 5).negate }
    reordered.Perm fitness ∧ (∀ x ∈ fitness, x.isNaN = false) ∧ fitness.length = 2 * 1 + 1 ∧
      (s.schedule.propose .infinity reordered ()).1 = zero.negate ∧
      (s.schedule.propose .infinity fitness ()).1 = zero.negate ∧
      median fitness = some zero.negate ∧ InTheMiddle fitness 1 zero.negate := by
  intro fitness reordered s
  obtain ⟨hpropose, hmedian⟩ := proposals_ignore_slot_order
  have hperm : reordered.Perm fitness := by decide +kernel
  have hnum : ∀ x ∈ fitness, x.isNaN = false := by decide +kernel
  have hlength : fitness.length = 2 * 1 + 1 := rfl
  have hsorted : fitness.mergeSort totalLe = [(ofNat 1).negate, zero.negate, zero] :=
    (eq_ranked (by decide +kernel) (by decide +kernel)).symm
  have hmiddle : median fitness = some zero.negate := by
    rw [median, hsorted]
    rfl
  have hproposed : (s.schedule.propose .infinity fitness ()).1 = zero.negate := by
    show s.propose .infinity fitness = _
    rw [MedianSchedule.propose, hmiddle]
    decide +kernel
  have hsame := hpropose (.median s) .infinity () hperm
  obtain ⟨middle, hsome, hin⟩ := hmedian hnum hlength
  obtain rfl : middle = zero.negate := Option.some.inj (hsome.symm.trans hmiddle)
  exact ⟨hperm, hnum, hlength, (congrArg Prod.fst hsame).trans hproposed, hproposed, hmiddle, hin⟩

end Winners

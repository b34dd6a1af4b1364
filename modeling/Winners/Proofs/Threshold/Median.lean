import Winners.Proofs.Number.Faithful
import Winners.Proofs.Threshold.Order
import Winners.Threshold.Schedule

set_option autoImplicit false

/-! # Half of the values pass their median

Values in order have two middle ones, which are the same if their number is odd. Half of all values,
rounded up, are no greater than the lower one, and as many no less than the upper one, so as many
pass whatever lies between the two, in either direction (`half_passes`). The median does as long as
the computed mean of two values does (`exists_median`). Without slack it is proposed as it is, or the
goal in its place, which is easier to pass (`MedianSchedule.half_passes_propose`).
-/

namespace Winners

open Binary64

/-! ## Values in order -/

theorem Binary64.rank_le_of_totalLe {x y : Binary64} (h : totalLe x y = true) :
    x.rank ≤ y.rank := by
  have hle : x.totalRank ≤ y.totalRank := of_decide_eq_true h
  unfold totalRank at hle
  unfold rank
  grind

/-- The values in the total order. -/
def ranked (values : List Binary64) : List Binary64 := values.mergeSort totalLe

theorem pairwise_totalLe_ranked (values : List Binary64) :
    (ranked values).Pairwise fun x y => totalLe x y = true := by
  apply List.pairwise_mergeSort
  · intro x y z hxy hyz
    exact decide_eq_true ((of_decide_eq_true hxy).trans (of_decide_eq_true hyz))
  · intro x y
    rw [Bool.or_eq_true]
    exact (Int.le_total x.totalRank y.totalRank).imp decide_eq_true decide_eq_true

theorem pairwise_ranked (values : List Binary64) :
    (ranked values).Pairwise fun x y => x.rank ≤ y.rank :=
  (pairwise_totalLe_ranked values).imp rank_le_of_totalLe

theorem ranked_perm (values : List Binary64) : (ranked values).Perm values :=
  List.mergeSort_perm values totalLe

theorem ranked_ne_nil {values : List Binary64} (h : values ≠ []) : ranked values ≠ [] := by
  intro hnil
  have hperm := ranked_perm values
  rw [hnil] at hperm
  exact h hperm.nil_eq.symm

section

variable {xs : List Binary64} {i j : Nat} {x y : Binary64}

theorem rank_le_of_getElem? (hsorted : xs.Pairwise fun x y => x.rank ≤ y.rank) (hij : i ≤ j)
    (hx : xs[i]? = some x) (hy : xs[j]? = some y) : x.rank ≤ y.rank := by
  obtain ⟨hi, rfl⟩ := List.getElem?_eq_some_iff.mp hx
  obtain ⟨hj, rfl⟩ := List.getElem?_eq_some_iff.mp hy
  rcases Nat.lt_or_eq_of_le hij with hlt | rfl
  · exact List.pairwise_iff_getElem.mp hsorted i j hi hj hlt
  · exact Int.le_refl _

/-- The two middle entries of a list, which are at one place if the length is odd. -/
structure Middles (xs : List Binary64) (lower upper : Binary64) : Prop where
  lower : xs[(xs.length - 1) / 2]? = some lower
  upper : xs[xs.length / 2]? = some upper

theorem exists_middles (hne : xs ≠ []) : ∃ lower upper, Middles xs lower upper := by
  have hpos : 0 < xs.length := List.length_pos_iff.mpr hne
  exact ⟨_, _, List.getElem?_eq_getElem (by omega), List.getElem?_eq_getElem (by omega)⟩

theorem Middles.eq_of_odd {lower upper : Binary64} (h : Middles xs lower upper)
    (hodd : xs.length % 2 ≠ 0) : lower = upper := by
  have hlower := h.lower
  rw [show (xs.length - 1) / 2 = xs.length / 2 by omega, h.upper] at hlower
  exact (Option.some.inj hlower).symm

/-- As many entries satisfy a predicate as stand in a part of the list where all do. -/
theorem length_le_countP {p : Binary64 → Bool} {part : List Binary64} (hpart : part.Sublist xs)
    (hall : ∀ x ∈ part, p x = true) : part.length ≤ xs.countP p := by
  rw [← List.countP_eq_length.mpr hall]
  exact hpart.countP_le

end

/-- **Half of the values pass what lies between the two middle ones.** -/
theorem half_passes (d : Direction) {xs : List Binary64}
    (hsorted : xs.Pairwise fun x y => x.rank ≤ y.rank) (hnum : ∀ x ∈ xs, x.isNaN = false)
    {lower upper t : Binary64} (hmiddles : Middles xs lower upper) (hlow : lower ≤ t)
    (hhigh : t ≤ upper) : (xs.length + 1) / 2 ≤ xs.countP (d.passes · t) := by
  have hlt : xs.length / 2 < xs.length := (List.getElem?_eq_some_iff.mp hmiddles.upper).1
  cases d with
  | minimize =>
      -- the entries up to the lower middle one pass
      have hall : ∀ x ∈ xs.take ((xs.length + 1) / 2), Direction.minimize.passes x t = true := by
        intro x hx
        obtain ⟨i, hi, rfl⟩ := List.mem_take_iff_getElem.mp hx
        have hrank : xs[i].rank ≤ lower.rank :=
          rank_le_of_getElem? hsorted (by omega) (List.getElem?_eq_getElem _) hmiddles.lower
        exact decide_eq_true ⟨hnum _ (List.getElem_mem _), hlow.2.1, hrank.trans hlow.2.2⟩
      calc (xs.length + 1) / 2 = (xs.take ((xs.length + 1) / 2)).length := by
            rw [List.length_take]
            omega
        _ ≤ xs.countP _ := length_le_countP (List.take_sublist _ _) hall
  | maximize =>
      -- the entries from the upper middle one on pass
      have hall : ∀ x ∈ xs.drop (xs.length / 2), Direction.maximize.passes x t = true := by
        intro x hx
        obtain ⟨i, hi, rfl⟩ := List.mem_drop_iff_getElem.mp hx
        have hrank : upper.rank ≤ xs[xs.length / 2 + i].rank :=
          rank_le_of_getElem? hsorted (by omega) hmiddles.upper (List.getElem?_eq_getElem _)
        exact decide_eq_true ⟨hhigh.1, hnum _ (List.getElem_mem _), hhigh.2.2.trans hrank⟩
      calc (xs.length + 1) / 2 = (xs.drop (xs.length / 2)).length := by
            rw [List.length_drop]
            omega
        _ ≤ xs.countP _ := length_le_countP (List.drop_sublist _ _) hall

/-! ## The median -/

/-- Numbers of which any two have their computed mean between them. -/
structure Averaging (S : Binary64 → Prop) : Prop where
  not_nan : ∀ {x}, S x → x.isNaN = false
  mean : ∀ {x y}, S x → S y → x ≤ y → MeanBetween x y

theorem averaging_of_moderate {S : Binary64 → Prop} (h : ∀ {x}, S x → x.Moderate) :
    Averaging S where
  not_nan := fun hx => isNaN_of_isFinite (h hx).isFinite
  mean := fun hx hy => mean_between_of_moderate (h hx) (h hy)

section

variable {values : List Binary64}

/-- The median, from the two middle values. -/
theorem median_eq {lower upper : Binary64} (h : Middles (ranked values) lower upper) :
    median values =
      some (if (ranked values).length % 2 = 0 then (lower + upper) / ofNat 2 else upper) := by
  unfold median
  simp only [show values.mergeSort totalLe = ranked values from rfl]
  split
  · next heven =>
      rw [show (ranked values).length / 2 - 1 = ((ranked values).length - 1) / 2 by omega, h.lower,
        h.upper]
      rfl
  · exact h.upper

/-- **The median lies between the two middle values.** -/
theorem exists_median (h : Averaging (· ∈ values)) (hne : values ≠ []) :
    ∃ m lower upper, median values = some m ∧ Middles (ranked values) lower upper ∧
      lower ≤ m ∧ m ≤ upper := by
  have hmem : ∀ {x}, x ∈ ranked values → x ∈ values := (ranked_perm values).mem_iff.mp
  obtain ⟨lower, upper, hmiddles⟩ := exists_middles (ranked_ne_nil hne)
  have hlower := hmem (List.mem_of_getElem? hmiddles.lower)
  have hupper := hmem (List.mem_of_getElem? hmiddles.upper)
  refine ⟨_, lower, upper, median_eq hmiddles, hmiddles, ?_⟩
  split
  · have hrank : lower.rank ≤ upper.rank :=
      rank_le_of_getElem? (pairwise_ranked values) (by omega) hmiddles.lower hmiddles.upper
    exact h.mean hlower hupper ⟨h.not_nan hlower, h.not_nan hupper, hrank⟩
  · next hodd =>
      have hself : upper ≤ upper := ⟨h.not_nan hupper, h.not_nan hupper, le_refl _⟩
      rw [hmiddles.eq_of_odd hodd]
      exact ⟨hself, hself⟩

/-- A value that passes a threshold passes what is left of it by the clamp at the goal. -/
theorem Direction.passes_clampToGoal {d : Direction} {fitness threshold : Binary64}
    (goal : Binary64) (h : d.passes fitness threshold = true) :
    d.passes fitness (d.clampToGoal threshold goal) = true := by
  unfold clampToGoal
  split
  · next hreached => exact passes_trans h hreached
  · exact h

/-- Moving a threshold by nothing changes nothing. -/
theorem Direction.passes_advance_zero {d : Direction} {fitness threshold slack : Binary64}
    (hslack : slack.magnitude = 0) (h : d.passes fitness threshold = true) :
    d.passes fitness (d.advance threshold slack) = true := by
  cases d with
  | minimize =>
      obtain ⟨hnum, hnum', hrank⟩ := of_decide_eq_true h
      obtain ⟨hmoved, hsame⟩ := rank_sub_of_zero hnum' hslack
      exact decide_eq_true ⟨hnum, hmoved, hrank.trans hsame.ge⟩
  | maximize =>
      obtain ⟨hnum', hnum, hrank⟩ := of_decide_eq_true h
      obtain ⟨hmoved, hsame⟩ := rank_add_of_zero hnum' hslack
      exact decide_eq_true ⟨hmoved, hnum, hsame.le.trans hrank⟩

/-- **Half of the values pass the proposal** of a schedule without slack, rounded up. -/
theorem MedianSchedule.half_passes_propose (s : MedianSchedule) (hslack : s.slack.magnitude = 0)
    (h : Averaging (· ∈ values)) (hne : values ≠ []) (current : Binary64) :
    (values.length + 1) / 2 ≤ values.countP (s.direction.passes · (s.propose current values)) := by
  obtain ⟨m, lower, upper, hm, hmiddles, hlow, hhigh⟩ := exists_median h hne
  have hnum : ∀ x ∈ ranked values, x.isNaN = false := fun x hx =>
    h.not_nan ((ranked_perm values).mem_iff.mp hx)
  have hhalf := half_passes s.direction (pairwise_ranked values) hnum hmiddles hlow hhigh
  rw [(ranked_perm values).length_eq, (ranked_perm values).countP_eq] at hhalf
  refine hhalf.trans (List.countP_mono_left ?_)
  intro x _ hx
  rw [propose, hm]
  exact Direction.passes_clampToGoal _ (Direction.passes_advance_zero hslack hx)

end

end Winners

import Winners.Draws.Arrangement
import Winners.Proofs.Sequence
import Mathlib.Data.List.FinRange
import Mathlib.Data.List.Perm.Basic

set_option autoImplicit false

/-! # Random arrangements

A shuffle rearranges the entries of a vector, whatever is drawn. Both ways of choosing indices give
as many as are asked for and none of them twice. In place, the chosen indices stand in front of a
rearrangement of all indices. One by one, each choice adds to the indices chosen so far one that is
not among them: the drawn one if it is new, and the greatest one that could have been drawn if not
(`perm_chosen`).
-/

namespace Winners.Sampler

/-! ## Swapping -/

theorem perm_swapIfInBounds {α : Type} {n : Nat} (xs : Vector α n) (i j : Nat) :
    (xs.swapIfInBounds i j).toList.Perm xs.toList := by
  show (xs.toArray.swapIfInBounds i j).toList.Perm xs.toArray.toList
  unfold Array.swapIfInBounds
  split
  · split
    · exact (Array.swap_perm _ _).toList
    · exact List.Perm.refl _
  · exact List.Perm.refl _

/-- A rearrangement gives the same entries in some order, whatever is drawn. -/
def Rearrangement.Permutes {n : Nat} (shuffle : Rearrangement n) : Prop :=
  ∀ xs draws, ((shuffle xs).run draws).1.toList.Perm xs.toList

/-- **A shuffle only rearranges the entries.** -/
theorem perm_shuffle {α : Type} {n : Nat} (xs : Vector α n) (draws : Draws) :
    ((shuffle xs).run draws).1.toList.Perm xs.toList := by
  have hsteps : (((List.range n).foldlM shuffleStep (xs, ⟨0, 1⟩)).run draws).1.1.toList.Perm
      xs.toList := by
    apply foldlM_kept (P := fun state : Vector α n × Chunk => state.1.toList.Perm xs.toList)
    · intro state i draws hstate
      exact (perm_swapIfInBounds state.1 i _).trans hstate
    · exact List.Perm.refl _
  exact hsteps

theorem permutes_shuffle {n : Nat} : Rearrangement.Permutes (n := n) shuffle :=
  fun xs draws => perm_shuffle xs draws

/-! ## Distinct indices -/

/-- A choice gives as many indices as are asked for and none of them twice, whatever is drawn. -/
def IndexChoice.Distinct (choose : IndexChoice) : Prop :=
  ∀ {n amount : Nat}, amount ≤ n → ∀ draws,
    ((choose n amount).run draws).1.Nodup ∧ ((choose n amount).run draws).1.length = amount

/-! ### In place -/

theorem perm_foldlM_drawForward {n : Nat} {is : List (Fin n)} {xs : Vector (Fin n) n}
    {draws : Draws} : ((is.foldlM drawForward xs).run draws).1.toList.Perm xs.toList := by
  apply foldlM_kept (P := fun ys : Vector (Fin n) n => ys.toList.Perm xs.toList)
  · intro ys i draws hys
    exact (perm_swapIfInBounds ys _ _).trans hys
  · exact List.Perm.refl _

theorem indicesInPlace_spec {n amount : Nat} (h : amount ≤ n) (draws : Draws) :
    ((indicesInPlace n amount).run draws).1.Nodup ∧
      ((indicesInPlace n amount).run draws).1.length = amount := by
  have hperm : (((((List.finRange n).take amount).foldlM drawForward
      (Vector.ofFn id)).run draws).1.toList).Perm (List.finRange n) := by
    refine perm_foldlM_drawForward.trans ?_
    rw [Vector.toList_ofFn, List.ofFn_id]
  unfold indicesInPlace
  rw [run_bind, run_pure]
  refine ⟨?_, ?_⟩
  · exact (hperm.nodup_iff.mpr (List.nodup_finRange n)).sublist (List.take_sublist _ _)
  · rw [List.length_take, hperm.length_eq, List.length_finRange]
    omega

/-! ### One by one -/

/-- A choice adds one index: the drawn one, or `top` if that one is chosen already. -/
theorem perm_chosen {n : Nat} (chosen : List (Fin n)) (pick top : Fin n) :
    (chosen.replace pick top ++ [pick]).Perm
      ((if pick ∈ chosen then top else pick) :: chosen) := by
  by_cases hpick : pick ∈ chosen
  · -- `pick` makes room for `top` in the list and stands behind it instead
    rw [if_pos hpick, List.perm_iff_count]
    intro i
    have hpos : 0 < chosen.count pick := List.count_pos_iff.mpr hpick
    simp only [List.count_append, List.count_replace, List.count_cons, List.count_nil,
      List.contains_iff_mem, hpick, if_true]
    split <;> split <;> simp_all
  · rw [if_neg hpick, List.replace_of_not_mem hpick]
    exact List.perm_append_singleton pick chosen

theorem exists_pick {n : Nat} (chosen : List (Fin n)) (top : Fin n) (draws : Draws) :
    ∃ pick ≤ top, ((chooseUpTo chosen top).run draws).1 = chosen.replace pick top ++ [pick] := by
  let drawn := ((below (top.val + 1) (Nat.succ_pos top.val)).run draws).1
  exact ⟨drawn.castLE top.isLt, Nat.lt_succ_iff.mp drawn.isLt, rfl⟩

/-- The choices for ascending greatest indices, after others below them. -/
theorem foldlM_chooseUpTo_spec {n : Nat} {tops : List (Fin n)} :
    ∀ {chosen : List (Fin n)} (draws : Draws), tops.Pairwise (· < ·) → chosen.Nodup →
      (∀ i ∈ chosen, ∀ top ∈ tops, i < top) →
      ((tops.foldlM chooseUpTo chosen).run draws).1.Nodup ∧
        ((tops.foldlM chooseUpTo chosen).run draws).1.length = chosen.length + tops.length := by
  induction tops with
  | nil =>
      intro chosen draws _ hchosen _
      exact ⟨hchosen, rfl⟩
  | cons top tops ih =>
      intro chosen draws hascending hchosen hbelow
      obtain ⟨htop, hrest⟩ := List.pairwise_cons.mp hascending
      rw [List.foldlM_cons, run_bind]
      obtain ⟨pick, hpick, hnext⟩ := exists_pick chosen top draws
      have hperm := perm_chosen chosen pick top
      rw [← hnext] at hperm
      -- `top` is new because only smaller indices could be drawn so far
      have hnew : (if pick ∈ chosen then top else pick) ∉ chosen := by
        split
        · exact fun hmem => lt_irrefl top (hbelow top hmem top List.mem_cons_self)
        · assumption
      obtain ⟨hnodup, hlength⟩ := ih ((chooseUpTo chosen top).run draws).2 hrest
        (hperm.nodup_iff.mpr (List.nodup_cons.mpr ⟨hnew, hchosen⟩)) (by
          intro i hi later hlater
          rcases List.mem_cons.mp (hperm.mem_iff.mp hi) with rfl | hi
          · split
            · exact htop later hlater
            · exact lt_of_le_of_lt hpick (htop later hlater)
          · exact hbelow i hi later (List.mem_cons_of_mem top hlater))
      refine ⟨hnodup, ?_⟩
      rw [hlength, hperm.length_eq, List.length_cons, List.length_cons]
      omega

theorem indicesOneByOne_spec {n amount : Nat} (h : amount ≤ n) (draws : Draws) :
    ((indicesOneByOne n amount).run draws).1.Nodup ∧
      ((indicesOneByOne n amount).run draws).1.length = amount := by
  obtain ⟨hnodup, hlength⟩ := foldlM_chooseUpTo_spec draws
    ((List.pairwise_lt_finRange n).sublist (List.drop_sublist (n - amount) _)) List.nodup_nil
    (fun i hi => absurd hi List.not_mem_nil)
  refine ⟨hnodup, hlength.trans ?_⟩
  rw [List.length_drop, List.length_finRange, List.length_nil]
  omega

/-- **Random indices are distinct**, and as many as are asked for. -/
theorem distinct_indices : indices.Distinct := by
  intro n amount h draws
  unfold indices
  split
  · exact indicesInPlace_spec h draws
  · exact indicesOneByOne_spec h draws

end Winners.Sampler

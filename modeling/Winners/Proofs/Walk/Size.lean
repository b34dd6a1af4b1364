import Winners.Proofs.Tracker.Size
import Winners.Proofs.Walk.Legal
import Winners.Proofs.Walk.Mixing

set_option autoImplicit false

/-! # Walks and the size of a subset

A step of a walk between bounds changes the size by at most one. It adds a vertex only at the lower
bound or below the upper one, and removes one only above the lower bound. So the bounds hold if
they are apart. If they are one number the walk has to add a vertex there, and leaves the bounds
unless the graph has no vertex to add (`bounded_walk_holds_iff`).

A step of a swap walk removes a vertex and adds another one, so the size after it is the size before
it, though not in between (`Policy.keeps_swapWalk`).
-/

namespace Winners

section

variable {τ μ ν π ω : Type} [Tracker τ μ ν] {P : τ → Prop}

/-- Moves that are accepted are made one after the other. -/
theorem tracker_perform_of_accepts (onMutation : μ → τ → ω → ω) {moves : List μ} :
    ∀ {t : τ} (report : ω), Tracker.Accepts t moves →
      (perform onMutation moves t report).2.1 = Tracker.replay t moves := by
  induction moves with
  | nil =>
      intro t report _
      rfl
  | cons move moves ih =>
      rintro t report ⟨undo, t', hmove, hrest⟩
      rw [perform_cons, hmove, Tracker.replay_cons, Tracker.attempt_of_ok hmove]
      exact ih (onMutation move t' report) hrest

theorem Policy.Legal.tracker_step {policy : Policy τ μ π} (hlegal : policy.Legal)
    (onMutation : μ → τ → ω → ω) (walk : Walk τ π ω) :
    (walk.step policy onMutation).2.tracker =
      Tracker.replay walk.tracker ((policy.plan walk.tracker walk.memory).run walk.draws).1.1 :=
  tracker_perform_of_accepts onMutation walk.report
    (hlegal.plan walk.tracker walk.memory walk.draws)

/-- A legal policy keeps what the moves that it plans for a step keep together. -/
theorem Policy.Legal.keeps {policy : Policy τ μ π} (hlegal : policy.Legal)
    (h : ∀ t memory draws, P t →
      P (Tracker.replay t ((policy.plan t memory).run draws).1.1)) : policy.Keeps P := by
  intro ω onMutation walk hwalk
  rw [hlegal.tracker_step]
  exact h walk.tracker walk.memory walk.draws hwalk

theorem Walk.mix_one (policy : Policy τ μ π) (onMutation : μ → τ → ω → ω) (walk : Walk τ π ω) :
    (walk.mix policy onMutation 1).2 = (walk.step policy onMutation).2 := by
  unfold mix
  rw [mixFrom]
  rcases walk.step policy onMutation with ⟨_ | _, _⟩ <;> rfl

end

variable {n : Nat} {G : Graph n} {π : Type}

namespace VertexSubset

theorem attempt_val (S : VertexSubset G) (v : Fin n) : Tracker.attempt S v.val = S.toggle v :=
  Tracker.attempt_of_ok (mutate_of_lt S v.isLt)

theorem replay_pair (S : VertexSubset G) (u v : Fin n) :
    Tracker.replay S [u.val, v.val] = (S.toggle u).toggle v := by
  rw [Tracker.replay_cons, Tracker.replay_cons, Tracker.replay_nil, attempt_val, attempt_val]

/-- The vertex that is added is not the one that has left. -/
theorem not_member_of_left {S : VertexSubset G} {add remove : Fin n}
    (hadd : S.member.get add = false) (hremove : S.member.get remove = true) :
    (S.toggle remove).member.get add = false := by
  have hne : add ≠ remove := by
    rintro rfl
    rw [hadd] at hremove
    cases hremove
  rw [toggle_member, Patch.get_flipAt, if_neg hne, hadd]

/-- A vertex that takes the place of a member keeps the size. -/
theorem size_replaced {S : VertexSubset G} (hS : S.Arranged) {add remove : Fin n}
    (hadd : S.member.get add = false) (hremove : S.member.get remove = true) :
    ((S.toggle remove).toggle add).size = S.size := by
  have hpos := hS.size_pos hremove
  have hshrunk := size_toggle_of_member hremove
  have hgrown := size_toggle_of_not_member (not_member_of_left hadd hremove)
  omega

/-- A set whose size is in a range. -/
structure Between (lo hi : Nat) (S : VertexSubset G) : Prop where
  arranged : S.Arranged
  le_size : lo ≤ S.size
  size_le : S.size ≤ hi

end VertexSubset

open VertexSubset

namespace Policy

/-! ## Walks between bounds -/

variable {bounds : SizeBounds} {S : VertexSubset G} {draws : Draws}

theorem adding_of_le (h : S.size ≤ bounds.min) : adding bounds S = pure true :=
  if_pos h

theorem size_of_adding (h : ((adding bounds S).run draws).1 = true) :
    S.size ≤ bounds.min ∨ S.size < bounds.max := by
  unfold adding at h
  split at h
  · next hmin => exact Or.inl hmin
  · split at h
    · cases h
    · next hmax => exact Or.inr (Nat.not_le.mp hmax)

theorem size_of_not_adding (h : ((adding bounds S).run draws).1 = false) :
    bounds.min < S.size := by
  unfold adding at h
  split at h
  · cases h
  · next hmin => exact Nat.not_le.mp hmin

/-- The moves that a walk between bounds plans for a step. -/
theorem plan_boundedSize (bounds : SizeBounds) (S : VertexSubset G) (memory : π)
    (draws : Draws) :
    (((boundedSize bounds).plan S memory).run draws).1.1 =
      (((if ((adding bounds S).run draws).1 then S.randomNonMember else S.randomMember).run
        ((adding bounds S).run draws).2).1.map Fin.val).toList := by
  rw [boundedSize_eq]
  rfl

/-- At the lower bound a walk adds a vertex if there is one to add. -/
theorem size_after_lower_bound (hS : S.Arranged) (hmin : S.size ≤ bounds.min)
    (hsize : S.size < n) (memory : π) (draws : Draws) :
    (Tracker.replay S (((boundedSize bounds).plan S memory).run draws).1.1).size =
      S.size + 1 := by
  obtain ⟨v, hv⟩ := hS.exists_randomNonMember hsize draws
  rw [plan_boundedSize, adding_of_le hmin]
  show (Tracker.replay S ((S.randomNonMember.run draws).1.map Fin.val).toList).size = S.size + 1
  rw [hv]
  show (Tracker.attempt S v.val).size = S.size + 1
  rw [attempt_val]
  exact size_toggle_of_not_member (hS.not_member_of_random hv)

/-- **A walk between bounds keeps them**, but for a step up from the lower bound. -/
theorem keeps_boundedSize (bounds : SizeBounds) :
    (boundedSize bounds : Policy (VertexSubset G) Nat π).Keeps
      (Between bounds.min (max bounds.max (bounds.min + 1))) := by
  refine (legal_boundedSize bounds).keeps ?_
  rintro S memory draws ⟨harranged, hlo, hhi⟩
  rw [plan_boundedSize]
  cases hadd : ((adding bounds S).run draws).1 with
  | true =>
      have hsize := size_of_adding hadd
      rw [if_pos rfl]
      cases hv : (S.randomNonMember.run ((adding bounds S).run draws).2).1 with
      | none => exact ⟨harranged, hlo, hhi⟩
      | some v =>
          show Between _ _ (Tracker.attempt S v.val)
          have hgrown := size_toggle_of_not_member (harranged.not_member_of_random hv)
          rw [attempt_val]
          exact ⟨sides_toggle harranged v, by omega, by omega⟩
  | false =>
      have hsize := size_of_not_adding hadd
      rw [if_neg (by decide)]
      cases hv : (S.randomMember.run ((adding bounds S).run draws).2).1 with
      | none => exact ⟨harranged, hlo, hhi⟩
      | some v =>
          show Between _ _ (Tracker.attempt S v.val)
          have hshrunk := size_toggle_of_member (harranged.member_of_random hv)
          rw [attempt_val]
          exact ⟨sides_toggle harranged v, by omega, by omega⟩

/-! ## Swap walks -/

/-- A swap walk plans nothing or an exchange of a member and another vertex. -/
theorem plan_swapWalk (hS : S.Arranged) (memory : π) (draws : Draws) :
    (((swapWalk : Policy (VertexSubset G) Nat π).plan S memory).run draws).1.1 = [] ∨
      ∃ add remove : Fin n, S.member.get add = false ∧ S.member.get remove = true ∧
        ((swapWalk.plan S memory).run draws).1.1 = [remove.val, add.val] := by
  unfold swapWalk
  dsimp only
  rw [Sampler.run_bind, Sampler.run_bind]
  split
  · next add remove hadd hremove =>
      exact Or.inr ⟨add, remove, hS.not_member_of_random hadd, hS.member_of_random hremove, rfl⟩
  · exact Or.inl rfl

/-- **A swap walk keeps the size.** -/
theorem keeps_swapWalk (hG : G.Simple) (size : Nat) :
    (swapWalk : Policy (VertexSubset G) Nat π).Keeps (OfSize size) := by
  refine legal_swapWalk.keeps ?_
  rintro S memory draws ⟨hexact, hsize⟩
  rcases plan_swapWalk hexact.sides memory draws with hplan | ⟨add, remove, hadd, hremove, hplan⟩
  · rw [hplan]
    exact ⟨hexact, hsize⟩
  · rw [hplan, replay_pair]
    refine ⟨(hexact.toggle hG remove).toggle hG add, ?_⟩
    rw [size_replaced hexact.sides hadd hremove, hsize]

end Policy

/-! ## Bounds that hold -/

/-- Walks between the bounds, on subsets of a graph, are not refused and stay between the bounds
after every step if they start there. -/
def SizeBounds.Hold (bounds : SizeBounds) {n : Nat} (G : Graph n) : Prop :=
  ∀ {π ω : Type} (onMutation : Nat → VertexSubset G → ω → ω) (walk : Walk (VertexSubset G) π ω),
    walk.tracker.Evolved → bounds.min ≤ walk.tracker.size → walk.tracker.size ≤ bounds.max →
    ∀ steps, ∃ made walk', walk.mix (.boundedSize bounds) onMutation steps = (.ok made, walk') ∧
      bounds.min ≤ walk'.tracker.size ∧ walk'.tracker.size ≤ bounds.max

/-- Bounds that leave one size fail at the first step from a subset of this size. -/
theorem bounds_apart_of_hold {bounds : SizeBounds} (hold : bounds.Hold G) :
    bounds.min < bounds.max ∨ n ≤ bounds.min := by
  by_contra hnot
  obtain ⟨hmax, hmin⟩ := not_or.mp hnot
  have hlt := Nat.not_le.mp hmin
  -- a random subset of the one size takes one step, which adds a vertex
  have heq : bounds.min = bounds.max := Nat.le_antisymm bounds.min_le_max (Nat.not_lt.mp hmax)
  obtain ⟨sampler, hsampler⟩ := exists_random (G := G) Sampler.indices (Nat.le_of_lt hlt)
  have hsize := size_random Sampler.distinct_indices hsampler (.ofSeed 0)
  generalize hS : (sampler.run (.ofSeed 0)).1 = S at hsize
  have hevolved : S.Evolved := hS ▸ .fresh (.random hsampler _)
  let walk : Walk (VertexSubset G) Unit Unit := ⟨S, (), .ofSeed 0, ()⟩
  obtain ⟨made, walk', hmix, -, hupper⟩ := hold (fun _ _ report => report) walk hevolved
    hsize.ge (hsize.trans heq).le 1
  have hlast : walk' = (walk.step (.boundedSize bounds) fun _ _ report => report).2 := by
    rw [← Walk.mix_one, hmix]
  have hgrown := Policy.size_after_lower_bound hevolved.arranged hsize.le
    (hsize.trans_lt hlt) () (.ofSeed 0)
  rw [hlast, (Policy.legal_boundedSize bounds).tracker_step] at hupper
  have := hgrown.symm.trans_le hupper
  omega

theorem bounds_hold_of_apart {bounds : SizeBounds}
    (happart : bounds.min < bounds.max ∨ n ≤ bounds.min) : bounds.Hold G := by
  intro π ω onMutation walk hwalk hlo hhi steps
  obtain ⟨made, walk', hmix⟩ :=
    Walk.exists_mix (Policy.legal_boundedSize bounds) onMutation steps walk
  refine ⟨made, walk', hmix, ?_⟩
  have hstart : Between bounds.min (max bounds.max (bounds.min + 1)) walk.tracker :=
    ⟨hwalk.arranged, hlo, le_max_of_le_left hhi⟩
  have hend := (Policy.keeps_boundedSize bounds).mix onMutation steps hstart
  rw [hmix] at hend
  obtain ⟨harranged, hlo', hhi'⟩ := hend
  refine ⟨hlo', ?_⟩
  rcases happart with hlt | hfull
  · rwa [max_eq_left hlt] at hhi'
  · have hle : walk'.tracker.size ≤ n := harranged.size_le
    exact hle.trans (hfull.trans bounds.min_le_max)

/-- **Bounds hold if and only if they are apart**, or there is no vertex to add at the lower one. -/
theorem bounded_walk_holds_iff {n : Nat} (G : Graph n) (bounds : SizeBounds) :
    bounds.Hold G ↔ bounds.min < bounds.max ∨ n ≤ bounds.min :=
  ⟨bounds_apart_of_hold, bounds_hold_of_apart⟩

/-- The bounds of one size are accepted, and a walk between them leaves them with its first step. -/
theorem not_hold_of_size_one :
    ∃ bounds S, SizeBounds.check 1 1 = .ok bounds ∧ ofList (Graph.path 3) [0] = .ok S ∧
      S.size = 1 ∧
      (Walk.mix (.boundedSize bounds) (fun _ _ report => report) 1
        (⟨S, (), .ofSeed 1, ()⟩ : Walk _ Unit Unit)).2.tracker.size = 2 ∧
      ¬bounds.Hold (Graph.path 3) := by
  have hS : ofList (Graph.path 3) [0] = .ok (ofVertices (Graph.path 3) [0]) := by decide +kernel
  have hsize : (Walk.mix (.boundedSize ⟨1, 1, le_rfl⟩) (fun _ _ report => report) 1
      (⟨ofVertices (Graph.path 3) [0], (), .ofSeed 1, ()⟩ : Walk _ Unit Unit)).2.tracker.size = 2 :=
    by decide +kernel
  refine ⟨⟨1, 1, le_rfl⟩, _, rfl, hS, by decide +kernel, hsize, ?_⟩
  intro hold
  obtain ⟨made, walk', hmix, -, hupper⟩ := hold (fun _ _ report => report)
    (⟨ofVertices (Graph.path 3) [0], (), .ofSeed 1, ()⟩ : Walk _ Unit Unit)
    (.fresh (.ofList hS)) (by decide +kernel) (by decide +kernel) 1
  rw [hmix] at hsize
  exact absurd (hsize.symm.trans_le hupper) (by decide)

end Winners

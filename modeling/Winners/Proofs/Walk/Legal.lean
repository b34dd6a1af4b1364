import Winners.Proofs.Sequence
import Winners.Proofs.Tracker.Coloring
import Winners.Proofs.Tracker.Message
import Winners.Proofs.Tracker.VertexSubset
import Winners.Walk.Mixing

set_option autoImplicit false

/-! # Walks that are never refused

A policy is `Legal` if trackers accept what it proposes and what it plans, whatever is drawn. The
walks of a legal policy do not fail (`Walk.exists_mix`). The policies that come with the library
are legal: they draw vertices and bits below the number of elements, and a colour that is moved
past the current one stays below the number of colours.
-/

namespace Winners

section

variable {τ μ ν π ω : Type} [Tracker τ μ ν]

/-- A tracker takes the moves of a list one after the other. -/
def Tracker.Accepts : τ → List μ → Prop
  | _, [] => True
  | t, move :: moves => ∃ undo t', Tracker.mutate t move = .ok (undo, t') ∧ Accepts t' moves

theorem perform_of_accepts (onMutation : μ → τ → ω → ω) {moves : List μ} :
    ∀ {t : τ} (report : ω), Tracker.Accepts t moves →
      (perform onMutation moves t report).1 = .ok () := by
  induction moves with
  | nil =>
      intro t report _
      rfl
  | cons move moves ih =>
      rintro t report ⟨undo, t', hmove, hrest⟩
      rw [perform_cons, hmove]
      exact ih (onMutation move t' report) hrest

namespace Policy

/-- Trackers accept what the policy proposes and what it plans for a step. -/
structure Legal (policy : Policy τ μ π) : Prop where
  propose : ∀ t memory draws move, ((policy.propose t memory).run draws).1.1 = some move →
    Tracker.Accepts t [move]
  plan : ∀ t memory draws, Tracker.Accepts t ((policy.plan t memory).run draws).1.1

/-- A policy that makes the moves it proposes is legal if each of them is accepted. -/
theorem legal_ofSampler {propose : τ → Sampler (Option μ)}
    (h : ∀ t draws move, ((propose t).run draws).1 = some move →
      ∃ undo t', Tracker.mutate t move = .ok (undo, t')) :
    (ofSampler propose : Policy τ μ π).Legal where
  propose := by
    intro t memory draws move hmove
    obtain ⟨undo, t', ht'⟩ := h t draws move hmove
    exact ⟨undo, t', ht', trivial⟩
  plan := by
    intro t memory draws
    show Tracker.Accepts t ((propose t).run draws).1.toList
    cases hmove : ((propose t).run draws).1 with
    | none => trivial
    | some move =>
        obtain ⟨undo, t', ht'⟩ := h t draws move hmove
        exact ⟨undo, t', ht', trivial⟩

end Policy

/-! ## Walks -/

namespace Walk

variable {policy : Policy τ μ π}

theorem exists_step (h : policy.Legal) (onMutation : μ → τ → ω → ω) (walk : Walk τ π ω) :
    ∃ moved walk', walk.step policy onMutation = (.ok moved, walk') := by
  have hperform := perform_of_accepts onMutation walk.report
    (h.plan walk.tracker walk.memory walk.draws)
  have hresult : (walk.step policy onMutation).1 =
      (perform onMutation ((policy.plan walk.tracker walk.memory).run walk.draws).1.1
        walk.tracker walk.report).1.map fun _ =>
          !((policy.plan walk.tracker walk.memory).run walk.draws).1.1.isEmpty := rfl
  rw [hperform] at hresult
  exact ⟨_, (walk.step policy onMutation).2, Prod.ext hresult rfl⟩

theorem exists_mixFrom (h : policy.Legal) (onMutation : μ → τ → ω → ω) {steps : Nat} :
    ∀ {count : Nat} {walk : Walk τ π ω},
      ∃ made walk', walk.mixFrom policy onMutation count steps = (.ok made, walk') := by
  induction steps with
  | zero =>
      intro count walk
      exact ⟨count, walk, rfl⟩
  | succ steps ih =>
      intro count walk
      obtain ⟨moved, walk', hstep⟩ := exists_step h onMutation walk
      rw [mixFrom, hstep]
      exact ih

/-- **A legal walk does not fail.** -/
theorem exists_mix (h : policy.Legal) (onMutation : μ → τ → ω → ω) (steps : Nat)
    (walk : Walk τ π ω) : ∃ made walk', walk.mix policy onMutation steps = (.ok made, walk') :=
  exists_mixFrom h onMutation

end Walk

end

/-! ## Shipped policies -/

namespace Policy

theorem lt_of_randomElement {n i : Nat} {draws : Draws}
    (h : ((randomElement n).run draws).1 = some i) : i < n := by
  unfold randomElement at h
  split at h
  · rw [Sampler.run_bind, Sampler.run_pure, Option.some.injEq] at h
    rw [← h]
    exact Fin.isLt _
  · cases h

/-- Flips are legal where every element can be flipped. -/
theorem legal_uniformFlip {τ ν π : Type} [Tracker τ Nat ν]
    (h : ∀ (t : τ) i, i < Tracker.size t → ∃ undo t', Tracker.mutate t i = .ok (undo, t')) :
    (uniformFlip : Policy τ Nat π).Legal :=
  legal_ofSampler fun t _ i hi => h t i (lt_of_randomElement hi)

variable {n : Nat} {π : Type}

theorem legal_uniformFlip_subset {G : Graph n} :
    (uniformFlip : Policy (VertexSubset G) Nat π).Legal :=
  legal_uniformFlip fun S _ hi => ⟨_, _, VertexSubset.mutate_of_lt S hi⟩

theorem legal_uniformFlip_message {m : Nat} {C : Code n m} :
    (uniformFlip : Policy (Message C) Nat π).Legal :=
  legal_uniformFlip fun x _ hi => ⟨_, _, Message.mutate_of_lt x hi⟩

/-- Whether a walk between bounds adds a vertex or removes one. -/
def adding {G : Graph n} (bounds : SizeBounds) (S : VertexSubset G) : Sampler Bool :=
  if S.size ≤ bounds.min then pure true
  else if bounds.max ≤ S.size then pure false
  else Sampler.coin (.ofRatio 1 2)

theorem boundedSize_eq {G : Graph n} (bounds : SizeBounds) :
    (boundedSize bounds : Policy (VertexSubset G) Nat π) = ofSampler fun S =>
      adding bounds S >>= fun add =>
        (if add then S.randomNonMember else S.randomMember) >>= fun v =>
          pure (v.map Fin.val) := by
  unfold boundedSize adding
  congr 1
  funext S
  split
  · rfl
  · split
    · rfl
    · refine bind_congr fun add => ?_
      cases add <;> rfl

theorem legal_boundedSize {G : Graph n} (bounds : SizeBounds) :
    (boundedSize bounds : Policy (VertexSubset G) Nat π).Legal := by
  rw [boundedSize_eq]
  apply legal_ofSampler
  intro S draws move hmove
  -- whichever side is drawn from, the draw is a vertex
  rw [Sampler.run_bind, Sampler.run_bind, Sampler.run_pure] at hmove
  obtain ⟨v, -, rfl⟩ := Option.map_eq_some_iff.mp hmove
  exact ⟨_, _, VertexSubset.mutate_of_lt S v.isLt⟩

theorem legal_swapWalk {G : Graph n} : (swapWalk : Policy (VertexSubset G) Nat π).Legal where
  propose := by
    intro S memory draws move hmove
    obtain ⟨v, -, rfl⟩ := Option.map_eq_some_iff.mp hmove
    exact ⟨_, _, VertexSubset.mutate_of_lt S v.isLt, trivial⟩
  plan := by
    intro S memory draws
    unfold swapWalk
    dsimp only
    rw [Sampler.run_bind, Sampler.run_bind]
    split
    · next add remove _ _ =>
        exact ⟨_, _, VertexSubset.mutate_of_lt S remove.isLt,
          _, _, VertexSubset.mutate_of_lt _ add.isLt, trivial⟩
    · trivial

/-- A colour drawn out of one fewer stays below the number of colours when it is moved past the
current one. -/
theorem otherColor_lt {k current draw : Nat} (h : draw < k - 1) : otherColor current draw < k := by
  unfold otherColor
  split <;> omega

theorem legal_randomRecolor {G : Graph n} :
    (randomRecolor : Policy (Coloring G) Recolor π).Legal := by
  apply legal_ofSampler
  intro C draws move hmove
  split at hmove
  · rw [Sampler.run_bind, Sampler.run_bind, Sampler.run_pure, Option.some.injEq] at hmove
    rw [← hmove]
    exact ⟨_, _, Coloring.mutate_of_lt C (Fin.isLt _) (otherColor_lt (Fin.isLt _))⟩
  · cases hmove

end Policy

/-- The policies that come with the library for vertex subsets. -/
inductive VertexSubset.Shipped {n : Nat} {G : Graph n} {π : Type} :
    Policy (VertexSubset G) Nat π → Prop
  | uniformFlip : Shipped .uniformFlip
  | boundedSize (bounds : SizeBounds) : Shipped (.boundedSize bounds)
  | swapWalk : Shipped .swapWalk

theorem VertexSubset.Shipped.legal {n : Nat} {G : Graph n} {π : Type}
    {policy : Policy (VertexSubset G) Nat π} (h : Shipped policy) : policy.Legal := by
  cases h with
  | uniformFlip => exact Policy.legal_uniformFlip_subset
  | boundedSize bounds => exact Policy.legal_boundedSize bounds
  | swapWalk => exact Policy.legal_swapWalk

end Winners

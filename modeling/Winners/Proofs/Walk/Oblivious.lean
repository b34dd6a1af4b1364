import Winners.Proofs.Walk.Legal
import Winners.Proofs.Walk.Relay

set_option autoImplicit false

/-! # Walks without a memory

A policy is `Oblivious` if its steps depend on the tracker and the draws only. A walk of such a
policy is carried on by these two (`Walk.walker`): whatever the policy has remembered elsewhere, and
whoever watches, it makes the same steps from them. `Strolls` counts steps that are not refused.
They can be cut in two anywhere, and each part is a walk by itself.
-/

namespace Winners

section

variable {τ μ ν π ω : Type} [Tracker τ μ ν]

/-- A policy whose steps depend on the tracker and the draws only. -/
structure Policy.Oblivious (policy : Policy τ μ π) : Prop where
  moves : ∀ t memory memory' draws, ((policy.plan t memory).run draws).1.1 =
    ((policy.plan t memory').run draws).1.1
  draws : ∀ t memory memory' draws, ((policy.plan t memory).run draws).2 =
    ((policy.plan t memory').run draws).2

namespace Walk

/-- What a walk of an oblivious policy depends on. -/
def walker (walk : Walk τ π ω) : τ × Draws := (walk.tracker, walk.draws)

/-- The moves of the next step. -/
def planned (policy : Policy τ μ π) (walk : Walk τ π ω) : List μ :=
  ((policy.plan walk.tracker walk.memory).run walk.draws).1.1

variable (policy : Policy τ μ π) (onMutation : μ → τ → ω → ω) (walk : Walk τ π ω)

theorem result_step : (walk.step policy onMutation).1 =
    (perform onMutation (walk.planned policy) walk.tracker walk.report).1.map fun _ =>
      !(walk.planned policy).isEmpty := rfl

theorem walker_step : (walk.step policy onMutation).2.walker =
    ((perform onMutation (walk.planned policy) walk.tracker walk.report).2.1,
      ((policy.plan walk.tracker walk.memory).run walk.draws).2) := rfl

end Walk

/-- Moves have the same result whoever watches them. -/
theorem perform_unwatched {ω' : Type} (onMutation : μ → τ → ω → ω) (onMutation' : μ → τ → ω' → ω')
    (moves : List μ) : ∀ (t : τ) (report : ω) (report' : ω'),
      (perform onMutation moves t report).1 = (perform onMutation' moves t report').1 ∧
      (perform onMutation moves t report).2.1 = (perform onMutation' moves t report').2.1 := by
  intro t report report'
  -- nothing of a report carries over to where there is nothing to report
  have hnothing : Relays (fun _ => ()) onMutation fun _ _ u => u := fun _ _ _ => rfl
  have hnothing' : Relays (fun _ => ()) onMutation' fun _ _ u => u := fun _ _ _ => rfl
  have heq := (perform_relayed hnothing moves t report).symm.trans
    (perform_relayed hnothing' moves t report')
  exact ⟨congrArg (·.1) heq, congrArg (·.2.1) heq⟩

namespace Policy

variable {policy : Policy τ μ π}

/-- A step takes a walker somewhere and is not refused, whatever the policy remembers and whoever
watches. -/
def StepsTo (policy : Policy τ μ π) (w w' : τ × Draws) : Prop :=
  ∀ ⦃ω : Type⦄ (onMutation : μ → τ → ω → ω) ⦃walk : Walk τ π ω⦄, walk.walker = w →
    ∃ moved walk', walk.step policy onMutation = (.ok moved, walk') ∧ walk'.walker = w'

/-- **Steps of an oblivious policy can be told from the tracker and the draws**, and so can it be
told whether a move is refused. -/
theorem Oblivious.step_congr {ω' : Type} (h : policy.Oblivious) (onMutation : μ → τ → ω → ω)
    (onMutation' : μ → τ → ω' → ω') {walk : Walk τ π ω} {other : Walk τ π ω'}
    (hwalker : other.walker = walk.walker) :
    (other.step policy onMutation').1 = (walk.step policy onMutation).1 ∧
      (other.step policy onMutation').2.walker = (walk.step policy onMutation).2.walker := by
  obtain ⟨htracker, hdraws⟩ := Prod.mk.inj hwalker
  have hplanned : other.planned policy = walk.planned policy := by
    rw [Walk.planned, htracker, hdraws]
    exact h.moves _ _ _ _
  -- the results come from the same moves, the walkers from the same moves and draws
  obtain ⟨hresult, hmade⟩ := perform_unwatched onMutation' onMutation (walk.planned policy)
    walk.tracker other.report walk.report
  constructor
  · rw [Walk.result_step, Walk.result_step, hplanned, htracker, hresult]
  · rw [Walk.walker_step, Walk.walker_step, hplanned, htracker, hdraws, hmade,
      h.draws _ other.memory walk.memory]

theorem Oblivious.stepsTo (h : policy.Oblivious) {onMutation : μ → τ → ω → ω}
    {walk walk' : Walk τ π ω} {moved : Bool}
    (hstep : walk.step policy onMutation = (.ok moved, walk')) :
    policy.StepsTo walk.walker walk'.walker := by
  intro ω' onMutation' other hwalker
  obtain ⟨hresult, hwalker'⟩ := h.step_congr onMutation onMutation' hwalker
  rw [hstep] at hresult hwalker'
  exact ⟨moved, (other.step policy onMutation').2, Prod.ext hresult rfl, hwalker'⟩

theorem Oblivious.mixFrom_congr {ω' : Type} (h : policy.Oblivious) (onMutation : μ → τ → ω → ω)
    (onMutation' : μ → τ → ω' → ω') {steps : Nat} :
    ∀ (count : Nat) {walk : Walk τ π ω} {other : Walk τ π ω'}, other.walker = walk.walker →
      (other.mixFrom policy onMutation' count steps).1 =
          (walk.mixFrom policy onMutation count steps).1 ∧
        (other.mixFrom policy onMutation' count steps).2.walker =
          (walk.mixFrom policy onMutation count steps).2.walker := by
  induction steps with
  | zero =>
      intro count walk other hwalker
      exact ⟨rfl, hwalker⟩
  | succ steps ih =>
      intro count walk other hwalker
      obtain ⟨hresult, hwalker'⟩ := h.step_congr onMutation onMutation' hwalker
      rw [Walk.mixFrom, Walk.mixFrom]
      cases hother : other.step policy onMutation' with
      | mk result' next' =>
          cases hstep : walk.step policy onMutation with
          | mk result next =>
              rw [hother, hstep] at hresult hwalker'
              cases hresult
              cases result' with
              | error e => exact ⟨rfl, hwalker'⟩
              | ok moved => exact ih _ hwalker'

/-- **Walks of an oblivious policy can be told from the tracker and the draws**, whether they fail
or not. -/
theorem Oblivious.mix_congr {ω' : Type} (h : policy.Oblivious) (onMutation : μ → τ → ω → ω)
    (onMutation' : μ → τ → ω' → ω') (steps : Nat) {walk : Walk τ π ω} {other : Walk τ π ω'}
    (hwalker : other.walker = walk.walker) :
    (other.mix policy onMutation' steps).1 = (walk.mix policy onMutation steps).1 ∧
      (other.mix policy onMutation' steps).2.walker =
        (walk.mix policy onMutation steps).2.walker :=
  h.mixFrom_congr onMutation onMutation' 0 hwalker

/-- A number of steps that are not refused, from one walker to another. -/
inductive Strolls (policy : Policy τ μ π) : Nat → τ × Draws → τ × Draws → Prop
  | refl (w : τ × Draws) : Strolls policy 0 w w
  | step {steps : Nat} {w u w' : τ × Draws} (hstep : policy.StepsTo w u)
      (hrest : Strolls policy steps u w') : Strolls policy (steps + 1) w w'

theorem eq_of_strolls_zero {w w' : τ × Draws} (h : policy.Strolls 0 w w') : w = w' := by
  cases h
  rfl

/-- A stroll can be interrupted anywhere. -/
theorem Strolls.split {first more : Nat} : ∀ {w w' : τ × Draws},
    policy.Strolls (first + more) w w' →
      ∃ u, policy.Strolls first w u ∧ policy.Strolls more u w' := by
  induction first with
  | zero =>
      intro w w' h
      rw [Nat.zero_add] at h
      exact ⟨w, .refl w, h⟩
  | succ first ih =>
      intro w w' h
      rw [Nat.add_right_comm] at h
      cases h with
      | step hstep hrest =>
          obtain ⟨u, hfirst, hmore⟩ := ih hrest
          exact ⟨u, .step hstep hfirst, hmore⟩

theorem Strolls.mixFrom {steps : Nat} {w w' : τ × Draws} (h : policy.Strolls steps w w')
    (onMutation : μ → τ → ω → ω) : ∀ {count : Nat} {walk : Walk τ π ω}, walk.walker = w →
      ∃ made walk', walk.mixFrom policy onMutation count steps = (.ok made, walk') ∧
        walk'.walker = w' := by
  induction h with
  | refl w =>
      intro count walk hwalk
      exact ⟨count, walk, rfl, hwalk⟩
  | step hstep _ ih =>
      intro count walk hwalk
      obtain ⟨moved, next, hnext, hwalker⟩ := hstep onMutation hwalk
      rw [Walk.mixFrom, hnext]
      exact ih hwalker

/-- **A stroll is how every walk from its start goes.** -/
theorem Strolls.mix {steps : Nat} {w w' : τ × Draws} (h : policy.Strolls steps w w')
    (onMutation : μ → τ → ω → ω) (walk : Walk τ π ω) (hwalk : walk.walker = w) :
    ∃ made walk', walk.mix policy onMutation steps = (.ok made, walk') ∧ walk'.walker = w' :=
  h.mixFrom onMutation hwalk

theorem Oblivious.strolls_of_mixFrom (h : policy.Oblivious) {onMutation : μ → τ → ω → ω}
    {steps : Nat} : ∀ {count made : Nat} {walk walk' : Walk τ π ω},
      walk.mixFrom policy onMutation count steps = (.ok made, walk') →
      policy.Strolls steps walk.walker walk'.walker := by
  induction steps with
  | zero =>
      intro count made walk walk' hmix
      cases hmix
      exact .refl _
  | succ steps ih =>
      intro count made walk walk' hmix
      rw [Walk.mixFrom] at hmix
      split at hmix
      · cases hmix
      · next moved next hnext => exact .step (h.stepsTo hnext) (ih hmix)

/-- A walk of an oblivious policy that does not fail is a stroll. -/
theorem Oblivious.strolls (h : policy.Oblivious) {onMutation : μ → τ → ω → ω} {steps made : Nat}
    {walk walk' : Walk τ π ω} (hmix : walk.mix policy onMutation steps = (.ok made, walk')) :
    policy.Strolls steps walk.walker walk'.walker :=
  h.strolls_of_mixFrom hmix

/-! ## Shipped policies -/

theorem oblivious_ofSampler (propose : τ → Sampler (Option μ)) :
    (ofSampler propose : Policy τ μ π).Oblivious where
  moves _ _ _ _ := rfl
  draws _ _ _ _ := rfl

end Policy

end

theorem Policy.oblivious_swapWalk {n : Nat} {G : Graph n} {π : Type} :
    (swapWalk : Policy (VertexSubset G) Nat π).Oblivious := by
  have hplan (S : VertexSubset G) (memory memory' : π) (draws : Draws) :
      ((swapWalk.plan S memory).run draws).1.1 = ((swapWalk.plan S memory').run draws).1.1 ∧
        ((swapWalk.plan S memory).run draws).2 = ((swapWalk.plan S memory').run draws).2 := by
    unfold swapWalk
    dsimp only
    rw [Sampler.run_bind, Sampler.run_bind, Sampler.run_bind, Sampler.run_bind]
    split <;> exact ⟨rfl, rfl⟩
  exact ⟨fun S memory memory' draws => (hplan S memory memory' draws).1,
    fun S memory memory' draws => (hplan S memory memory' draws).2⟩

theorem VertexSubset.Shipped.oblivious {n : Nat} {G : Graph n} {π : Type}
    {policy : Policy (VertexSubset G) Nat π} (h : Shipped policy) : policy.Oblivious := by
  cases h with
  | uniformFlip => exact Policy.oblivious_ofSampler _
  | boundedSize bounds => exact Policy.oblivious_ofSampler _
  | swapWalk => exact Policy.oblivious_swapWalk

end Winners

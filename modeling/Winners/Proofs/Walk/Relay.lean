import Winners.Walk.Mixing

set_option autoImplicit false

/-! # Whoever watches a walk

A walk tells an observer of its moves and learns nothing from it. So if a function carries what one
observer makes of each move over to what another one makes of it (`Relays`), it carries over what
they make of a whole walk, and the walk is the same (`Walk.mix_relayed`).
-/

namespace Winners

variable {τ μ ν π ω ω' : Type} [Tracker τ μ ν]

/-- `f` carries what one observer makes of a move over to what another one makes of it. -/
def Relays (f : ω → ω') (onMutation : μ → τ → ω → ω) (onMutation' : μ → τ → ω' → ω') : Prop :=
  ∀ move t report, f (onMutation move t report) = onMutation' move t (f report)

variable {f : ω → ω'} {onMutation : μ → τ → ω → ω} {onMutation' : μ → τ → ω' → ω'}

theorem perform_relayed (h : Relays f onMutation onMutation') (moves : List μ) :
    ∀ (t : τ) (report : ω), perform onMutation' moves t (f report) =
      ((perform onMutation moves t report).1, (perform onMutation moves t report).2.1,
        f (perform onMutation moves t report).2.2) := by
  induction moves with
  | nil =>
      intro t report
      rfl
  | cons move moves ih =>
      intro t report
      rw [perform_cons, perform_cons]
      cases Tracker.mutate t move with
      | error e => rfl
      | ok result =>
          dsimp only
          rw [← h]
          exact ih _ _

namespace Walk

/-- The walk with its report carried over. -/
def relayed (f : ω → ω') (walk : Walk τ π ω) : Walk τ π ω' :=
  ⟨walk.tracker, walk.memory, walk.draws, f walk.report⟩

variable {policy : Policy τ μ π}

theorem step_relayed (h : Relays f onMutation onMutation') (walk : Walk τ π ω) :
    (walk.relayed f).step policy onMutation' =
      ((walk.step policy onMutation).1, (walk.step policy onMutation).2.relayed f) := by
  unfold step relayed
  rcases (policy.plan walk.tracker walk.memory).run walk.draws with ⟨⟨moves, memory⟩, draws⟩
  dsimp only
  rw [perform_relayed h]

theorem mixFrom_relayed (h : Relays f onMutation onMutation') {steps : Nat} :
    ∀ (count : Nat) (walk : Walk τ π ω), (walk.relayed f).mixFrom policy onMutation' count steps =
      ((walk.mixFrom policy onMutation count steps).1,
        (walk.mixFrom policy onMutation count steps).2.relayed f) := by
  induction steps with
  | zero =>
      intro count walk
      rfl
  | succ steps ih =>
      intro count walk
      rw [mixFrom, mixFrom, step_relayed h]
      rcases walk.step policy onMutation with ⟨_ | moved, next⟩
      · rfl
      · exact ih _ next

/-- **A walk is the same whoever watches it**, and its report is carried over. -/
theorem mix_relayed (h : Relays f onMutation onMutation') (steps : Nat) (walk : Walk τ π ω) :
    (walk.relayed f).mix policy onMutation' steps =
      ((walk.mix policy onMutation steps).1, (walk.mix policy onMutation steps).2.relayed f) :=
  mixFrom_relayed h 0 walk

end Walk

end Winners

import Winners.Walk.Policy

set_option autoImplicit false

/-! # Random walks

A walk applies the steps of a policy to one tracker. Every move that was made is reported, with
the tracker after it, to an accumulator `ω`. A move that the tracker refuses ends the walk; what
was done before it stays done.
-/

namespace Winners

/-- What a walk works on: the tracker, the policy's memory, the stream of draws and the
accumulator of the reports. -/
structure Walk (τ π ω : Type) where
  tracker : τ
  memory : π
  draws : Draws
  report : ω

section

variable {τ μ ν π ω : Type} [Tracker τ μ ν]

/-- Makes the moves of a list in order, up to the first that is refused. -/
def perform (onMutation : μ → τ → ω → ω) : List μ → τ → ω → Except Error Unit × τ × ω
  | [], tracker, report => (.ok (), tracker, report)
  | move :: rest, tracker, report =>
      match Tracker.apply tracker move with
      | (.error e, tracker) => (.error e, tracker, report)
      | (.ok _, tracker) => perform onMutation rest tracker (onMutation move tracker report)

/-- A move that is refused changes nothing, so it is told by what `mutate` gives. -/
theorem perform_cons (onMutation : μ → τ → ω → ω) (move : μ) (rest : List μ) (tracker : τ)
    (report : ω) : perform onMutation (move :: rest) tracker report =
      match Tracker.mutate tracker move with
      | .error e => (.error e, tracker, report)
      | .ok (_, tracker) => perform onMutation rest tracker (onMutation move tracker report) := by
  rw [perform]
  cases hmove : Tracker.mutate tracker move with
  | error e => rw [Tracker.mutate_eq_error_iff.mp hmove]
  | ok moved => rw [Tracker.mutate_eq_ok_iff.mp hmove]

namespace Walk

/-- One walk step; the result says whether it made a move. -/
def step (policy : Policy τ μ π) (onMutation : μ → τ → ω → ω) (walk : Walk τ π ω) :
    Except Error Bool × Walk τ π ω :=
  let ((moves, memory), draws) := (policy.plan walk.tracker walk.memory).run walk.draws
  let (result, tracker, report) := perform onMutation moves walk.tracker walk.report
  (result.map fun _ => !moves.isEmpty, { tracker, memory, draws, report })

/-- `count` plus the number of steps, out of `steps`, that made a move. -/
def mixFrom (policy : Policy τ μ π) (onMutation : μ → τ → ω → ω) (count : Nat) :
    (steps : Nat) → Walk τ π ω → Except Error Nat × Walk τ π ω
  | 0, walk => (.ok count, walk)
  | steps + 1, walk =>
      match walk.step policy onMutation with
      | (.error e, walk) => (.error e, walk)
      | (.ok moved, walk) =>
          mixFrom policy onMutation (if moved then count + 1 else count) steps walk

/-- Walks for a number of steps; the result counts those that made a move. -/
def mix (policy : Policy τ μ π) (onMutation : μ → τ → ω → ω) (steps : Nat)
    (walk : Walk τ π ω) : Except Error Nat × Walk τ π ω :=
  walk.mixFrom policy onMutation 0 steps

end Walk

end

end Winners

import Winners.Tracker.VertexSubset
import Winners.Tracker.Coloring
import Winners.Tracker.Message

set_option autoImplicit false

/-! # Move policies

A policy chooses the moves of a random walk. `propose` gives the move it would make, if there is
one; `plan` gives all moves of one walk step. For most policies a step is the proposed move. A
policy may remember something from step to step (`π`). The ones that come with the library do not
and pass on whatever memory they are given; only `Policy.cyclic` counts its proposals.
-/

namespace Winners

/-- A way to walk over trackers `τ` by moves `μ`, with a memory `π`. -/
structure Policy (τ μ π : Type) where
  propose : τ → π → Sampler (Option μ × π)
  plan : τ → π → Sampler (List μ × π)

namespace Policy

variable {τ μ π : Type}

/-- The policy whose walk step is the proposed move. -/
def ofPropose (propose : τ → π → Sampler (Option μ × π)) : Policy τ μ π where
  propose
  plan tracker memory := do
    let (move, memory) ← propose tracker memory
    return (move.toList, memory)

/-- The policy that proposes without a memory and makes the proposed move. -/
def ofSampler (propose : τ → Sampler (Option μ)) : Policy τ μ π :=
  ofPropose fun tracker memory => do return (← propose tracker, memory)

/-! ## Shipped policies -/

/-- A uniformly random element. -/
def randomElement (n : Nat) : Sampler (Option Nat) :=
  if h : 0 < n then do return some (← Sampler.below n h).val else return none

/-- Flips a uniformly random element. -/
def uniformFlip {ν : Type} [Tracker τ Nat ν] : Policy τ Nat π :=
  ofSampler fun tracker => randomElement (Tracker.size tracker)

end Policy

/-- Bounds on the size of a subset. -/
structure SizeBounds where
  min : Nat
  max : Nat
  min_le_max : min ≤ max

/-- The bounds, unless they are inverted. -/
def SizeBounds.check (min max : Nat) : Except Error SizeBounds :=
  if h : min ≤ max then .ok ⟨min, max, h⟩ else .error (.invalid (.sizeBounds min max))

namespace Policy

variable {n : Nat} {G : Graph n} {π : Type}

/-- Adds a random vertex up to the lower bound, removes one from the upper bound on, and in
between does either with equal probability. -/
def boundedSize (bounds : SizeBounds) : Policy (VertexSubset G) Nat π :=
  ofSampler fun S => do
    let add ←
      if S.size ≤ bounds.min then pure true
      else if bounds.max ≤ S.size then pure false
      else Sampler.coin (.ofRatio 1 2)
    let v ← if add then S.randomNonMember else S.randomMember
    return v.map Fin.val

/-- Removes a random member and adds a random other vertex, so that the size stays. The step is
skipped when there is no such pair. -/
def swapWalk : Policy (VertexSubset G) Nat π where
  propose S memory := do return ((← S.randomMember).map Fin.val, memory)
  plan S memory := do
    let add ← S.randomNonMember
    let remove ← S.randomMember
    match add, remove with
    | some add, some remove => return ([remove.val, add.val], memory)
    | _, _ => return ([], memory)

/-- The colour that a draw out of one colour fewer stands for: the colours below `current` are
themselves, those from it on are one higher. -/
def otherColor (current draw : Nat) : Nat := if current ≤ draw then draw + 1 else draw

/-- The recolouring that two draws stand for. -/
def recoloring (C : Coloring G) (node : Fin n) (draw : Fin (C.k - 1)) : Recolor :=
  ⟨node, otherColor (C.colors.get node) draw⟩

/-- Gives a random vertex a random colour other than its own. -/
def randomRecolor : Policy (Coloring G) Recolor π :=
  ofSampler fun C => do
    if h : 0 < n ∧ 0 < C.k - 1 then
      let node ← Sampler.below n h.1
      let draw ← Sampler.below (C.k - 1) h.2
      return some (recoloring C node draw)
    else return none

/-- The proposals of a list in order, over and over. The memory is the number of proposals
made. -/
def cyclic {τ μ : Type} (moves : List (Option μ)) : Policy τ μ Nat :=
  ofPropose fun _ position => return (moves[position % moves.length]?.join, position + 1)

end Policy

end Winners

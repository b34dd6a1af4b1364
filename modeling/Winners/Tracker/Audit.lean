import Winners.Tracker.Basic

set_option autoImplicit false

/-! # Audits

An audit compares the caches of a tracker with those computed from its assignment: the score
first, then the marginal of each element in order. The first difference is reported, and so is a
marginal that cannot be read.
-/

namespace Winners

inductive AuditFault
  | score (cached recomputed : Int)
  | marginal (element : Nat) (cached recomputed : Int)
  | access (error : Error)
deriving DecidableEq

def AuditFault.message : AuditFault → String
  | score cached recomputed =>
      s!"cached score {cached} differs from recomputed score {recomputed}"
  | marginal element cached recomputed =>
      s!"cached marginal of element {element} is {cached}, recomputed {recomputed}"
  | access error => error.message

variable {τ μ ν : Type} [Tracker τ μ ν]

/-- Compares one marginal of `t` with that of `fresh`. -/
def auditElement (t fresh : τ) (element : Nat) : Except AuditFault Unit := do
  let cached ← (Tracker.marginal t element).mapError .access
  let recomputed ← (Tracker.marginal fresh element).mapError .access
  if cached ≠ recomputed then throw (.marginal element cached recomputed)

/-- Compares the caches of a tracker with recomputed ones. -/
def audit (t : τ) : Except AuditFault Unit := do
  let recomputed := Tracker.scoreFromScratch t
  if Tracker.score t ≠ recomputed then throw (.score (Tracker.score t) recomputed)
  (List.range (Tracker.size t)).forM (auditElement t (Tracker.rebuild t))

end Winners

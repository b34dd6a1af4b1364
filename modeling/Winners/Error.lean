import Winners.Number.Layout
import Winners.Text.Quoted

set_option autoImplicit false

/-! # Errors

What can be refused, and the wording of each refusal. Reading an adjacency matrix has its own
faults (`MatrixFault`); parameters that make no sense are described by `Invalid`; `Error` is what
the operations of the library fail with. A search that stalls or loses all its particles has not
failed: those are ordinary ends of a run.
-/

namespace Winners

/-- Why a text is not the adjacency matrix of a simple graph. Rows and columns count from zero. -/
inductive MatrixFault
  | empty
  | notSquare (row expected got : Nat)
  | invalidChar (row col : Nat) (c : Char)
  | selfLoop (vertex : Nat)
  | notSymmetric (i j : Nat)
  | unreadable (path reason : String)
deriving DecidableEq

def MatrixFault.message : MatrixFault → String
  | empty => "adjacency matrix is empty"
  | notSquare row expected got => s!"row {row} has {got} entries, expected {expected}"
  | invalidChar row col c =>
      s!"entry ({row}, {col}) is " ++ quoteChar c ++ ", expected '0' or '1'"
  | selfLoop vertex => s!"vertex {vertex} is adjacent to itself"
  | notSymmetric i j => s!"entries ({i}, {j}) and ({j}, {i}) disagree"
  | unreadable path reason => s!"cannot read graph file {path}: {reason}"

/-- Parameters that an operation cannot work with. -/
inductive Invalid
  | selfLoop (vertex : Nat)
  | plantedSize (size vertices : Nat)
  | edgeProbability (p : Binary64)
  | matrix (fault : MatrixFault)
  | weightCount (expected got : Nat)
  | weight (w : Int)
  | gallagerPositive (n j k : Nat)
  | gallagerDivides (n k : Nat)
  | tannerChecks
  | subsetSize (size vertices : Nat)
  | alreadyMember (vertex : Nat)
  | notMember (vertex : Nat)
  | noColor
  | coloringLength (got vertices : Nat)
  | messageLength (got bits : Nat)
  | flipProbability (p : Binary64)
  | comparedLength (bits other : Nat)
  | sizeBounds (min max : Nat)
  | noParticles
  | shrinking (survivors target : Nat)
  | goal (x : Binary64)
  | initialNaN
  | initialPastGoal (initial x : Binary64)
  | slack (x : Binary64)
  | step (x : Binary64)
  | fraction (x : Binary64)
  | roundLimit
deriving DecidableEq

/-- A number as messages show it. -/
def Binary64.text (x : Binary64) : String := Layout.message.write x

def Invalid.message : Invalid → String
  | selfLoop vertex => s!"self-loop at vertex {vertex}"
  | plantedSize size vertices =>
      s!"planted set of size {size} does not fit in a graph of {vertices} vertices"
  | edgeProbability p => "edge probability " ++ p.text ++ " is not in [0, 1]"
  | matrix fault => fault.message
  | weightCount expected got => s!"expected {expected} check weights, got {got}"
  | weight w => s!"check weights must be positive, got {w}"
  | gallagerPositive n j k =>
      s!"Gallager construction requires positive n, j, k (got n={n}, j={j}, k={k})"
  | gallagerDivides n k => s!"Gallager construction requires k to divide n (n={n}, k={k})"
  | tannerChecks => "Tanner construction needs at least one check when degree > 0"
  | subsetSize size vertices =>
      s!"requested subset size {size} exceeds the {vertices} vertices of the graph"
  | alreadyMember vertex => s!"vertex {vertex} is already a member"
  | notMember vertex => s!"vertex {vertex} is not a member"
  | noColor => "a colouring needs at least one colour"
  | coloringLength got vertices =>
      s!"colouring has {got} entries but the graph has {vertices} vertices"
  | messageLength got bits => s!"message has {got} bits but the code has {bits}"
  | flipProbability p => "flip probability must lie in [0, 1], got " ++ p.text
  | comparedLength bits other => s!"cannot compare a {bits}-bit message with a {other}-bit one"
  | sizeBounds min max => s!"subset size bounds are inverted (min {min} > max {max})"
  | noParticles => "population size must be positive"
  | shrinking survivors target => s!"cannot replenish {survivors} particles down to {target}"
  | goal x => "goal must be finite, got " ++ x.text
  | initialNaN => "initial threshold is NaN"
  | initialPastGoal t x =>
      "initial threshold " ++ t.text ++ " is already at or past the goal " ++ x.text
  | slack x => "slack must be finite and non-negative, got " ++ x.text
  | step x => "step must be finite and positive, got " ++ x.text
  | fraction x => "fraction must lie in (0, 1], got " ++ x.text
  | roundLimit => "round limit must be positive"

/-- What an operation fails with. -/
inductive Error
  | invalid (cause : Invalid)
  | indexOutOfRange (index len : Nat)
  | emptyPopulation
deriving DecidableEq

def Error.message : Error → String
  | invalid cause => "invalid configuration: " ++ cause.message
  | indexOutOfRange index len => s!"index {index} out of range (valid range is 0..{len})"
  | emptyPopulation => "cannot replenish an empty population"

/-- The index as a bounded one, or the error that names the bound. -/
def checkIndex (index len : Nat) : Except Error (Fin len) :=
  if h : index < len then .ok ⟨index, h⟩ else .error (.indexOutOfRange index len)

@[simp] theorem checkIndex_val {n : Nat} (i : Fin n) : checkIndex i.val n = .ok i := by
  simp [checkIndex]

theorem checkIndex_eq_ok_iff {index n : Nat} {i : Fin n} :
    checkIndex index n = .ok i ↔ index = i.val := by
  unfold checkIndex
  split
  · simp [Fin.ext_iff]
  · have := i.isLt
    simp
    omega

theorem checkIndex_of_lt {index n : Nat} (h : index < n) : checkIndex index n = .ok ⟨index, h⟩ :=
  dif_pos h

theorem checkIndex_eq_error {index n : Nat} (h : n ≤ index) :
    checkIndex index n = .error (.indexOutOfRange index n) := by
  simp [checkIndex, Nat.not_lt.mpr h]

end Winners

import Winners.Number.Reading

set_option autoImplicit false

/-! # Command lines

The arguments of the program: the name of a problem, then its options in any order. An option
with a value is written `--name value` or `--name=value`, where a value in a word of its own does
not start with a minus sign unless it is one; a flag is written `--name`. No option may be
repeated. Options that are left out have defaults.

Anything else is refused as a whole (`none`).
-/

namespace Winners

/-- Options that every problem has. -/
structure CommonOptions where
  population : Nat
  walkLength : Nat
  seed : Option UInt64
  maxRounds : Option Nat
  slack : Binary64
  serial : Bool
  roundsLog : Bool
  audit : Bool

/-- A problem to search on, with its own options. -/
inductive Problem
  /-- A sparse subset in a graph with a planted independent set, or in a given graph. -/
  | independentSet (vertices : Nat) (p : Binary64) (size : Nat) (graph : Option String)
  /-- A proper colouring of a random or given graph. -/
  | coloring (vertices : Nat) (p : Binary64) (colors : Nat) (graph : Option String)
  /-- The zero codeword of a random code, from a noisy copy of it. -/
  | ldpc (bits columnWeight rowWeight : Nat) (flip initFlip : Binary64)

structure Command where
  problem : Problem
  common : CommonOptions

namespace CommandLine

/-! ## Words -/

/-- The options found on a command line: names with their values, flags with none. -/
abbrev Found := List (String × Option String)

/-- Options of a problem that take a value, and flags. -/
structure Accepted where
  valued : List String
  flags : List String

/-- Adds an option, unless it is there already. -/
def addOption (name : String) (value : Option String) (found : Found) : Option Found :=
  if found.any (·.1 = name) then none else some ((name, value) :: found)

/-- The name and, after an equals sign, the value in a word that starts with two minus signs. -/
def splitWord? (word : String) : Option (String × Option String) :=
  match word.toList with
  | '-' :: '-' :: body =>
      let name := String.ofList (body.takeWhile (· ≠ '='))
      match body.dropWhile (· ≠ '=') with
      | [] => some (name, none)
      | _ :: value => some (name, some (String.ofList value))
  | _ => none

/-- Whether a word can be the value of the option before it. -/
def isValue (word : String) : Bool :=
  match word.toList with
  | '-' :: _ :: _ => false
  | _ => true

/-- Reads the words of a command line, after the options found already. The word `--` may end
it. -/
def readWords (accepted : Accepted) (found : Found) : List String → Option Found
  | [] => some found
  | ["--"] => some found
  | [word] => do
      match ← splitWord? word with
      | (name, some value) =>
          if name ∈ accepted.valued then addOption name (some value) found else none
      | (name, none) => if name ∈ accepted.flags then addOption name none found else none
  | word :: next :: rest => do
      match ← splitWord? word with
      | (name, some value) =>
          if name ∈ accepted.valued then
            readWords accepted (← addOption name (some value) found) (next :: rest)
          else none
      | (name, none) =>
          if name ∈ accepted.flags then
            readWords accepted (← addOption name none found) (next :: rest)
          else if name ∈ accepted.valued && isValue next then
            readWords accepted (← addOption name (some next) found) rest
          else none

/-! ## Values -/

/-- The value of an option, or its default. -/
def valueOr {α : Type} (found : Found) (name : String) (read : String → Option α)
    (default : α) : Option α :=
  match found.lookup name with
  | some (some text) => read text
  | _ => some default

def natOr (found : Found) (name : String) (default : Nat) : Option Nat :=
  valueOr found name readWord? default

def numberOr (found : Found) (name : String) (default : Binary64) : Option Binary64 :=
  valueOr found name Binary64.read? default

/-- The value of an option that has no default. -/
def optional {α : Type} (found : Found) (name : String) (read : String → Option α) :
    Option (Option α) :=
  valueOr found name (fun text => (read text).map some) none

def hasFlag (found : Found) (name : String) : Bool := (found.lookup name).isSome

/-- A path is any text but the empty one. -/
def readPath? (text : String) : Option String := if text.isEmpty then none else some text

/-! ## Problems -/

def commonValued : List String := ["population", "walk-length", "seed", "max-rounds", "slack"]

def commonFlags : List String := ["serial", "rounds-log", "audit"]

def readCommon (found : Found) : Option CommonOptions := do
  return {
    population := ← natOr found "population" 64
    walkLength := ← natOr found "walk-length" 64
    seed := (← optional found "seed" readWord?).map UInt64.ofNat
    maxRounds := ← optional found "max-rounds" readWord?
    slack := ← numberOr found "slack" .zero
    serial := hasFlag found "serial"
    roundsLog := hasFlag found "rounds-log"
    audit := hasFlag found "audit" }

def readIndependentSet (found : Found) : Option Problem := do
  return .independentSet (← natOr found "vertices" 200) (← numberOr found "p" (.ofDecimal 1 (-1)))
    (← natOr found "size" 30) (← optional found "graph" readPath?)

def readColoring (found : Found) : Option Problem := do
  return .coloring (← natOr found "vertices" 100) (← numberOr found "p" (.ofDecimal 5 (-2)))
    (← natOr found "colors" 4) (← optional found "graph" readPath?)

def readLdpc (found : Found) : Option Problem := do
  return .ldpc (← natOr found "bits" 120) (← natOr found "column-weight" 3)
    (← natOr found "row-weight" 6) (← numberOr found "flip-probability" (.ofDecimal 5 (-2)))
    (← numberOr found "init-flip-probability" .zero)

/-- The options of a problem with a value, and the reader of its own options. -/
def problemNamed? : String → Option (List String × (Found → Option Problem))
  | "independent-set" => some (["vertices", "p", "size", "graph"], readIndependentSet)
  | "coloring" => some (["vertices", "p", "colors", "graph"], readColoring)
  | "ldpc" =>
      some (["bits", "column-weight", "row-weight", "flip-probability", "init-flip-probability"],
        readLdpc)
  | _ => none

/-- The command that the arguments of the program stand for. -/
def read? : List String → Option Command
  | [] => none
  | name :: words => do
      let (own, readProblem) ← problemNamed? name
      let found ← readWords ⟨own ++ commonValued, commonFlags⟩ [] words
      return ⟨← readProblem found, ← readCommon found⟩

end CommandLine

/-- The graph file that a command names. -/
def Command.graphFile? (c : Command) : Option String :=
  match c.problem with
  | .independentSet _ _ _ graph => graph
  | .coloring _ _ _ graph => graph
  | .ldpc .. => none

end Winners

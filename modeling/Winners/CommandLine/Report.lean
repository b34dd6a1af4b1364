import Winners.CommandLine.Arguments
import Winners.Graph.Matrix
import Winners.Graph.Random
import Winners.Code.Random
import Winners.Search.Basic
import Winners.Tracker.Audit
import Winners.Tracker.Descent

set_option autoImplicit false

/-! # Carrying out a command

A command builds an instance, searches on it, polishes the result by steepest descent and reports
it. The session collects log entries on the way and keeps them when something fails.
-/

namespace Winners

/-- What the program does after reading its arguments: it may log, and it may fail with a
message. -/
abbrev Session := ExceptT String (StateM (List LogEntry))

namespace Session

/-- Logs an entry. -/
def log (e : LogEntry) : Session Unit := modify (· ++ [e])

/-- Goes on with a result or fails with the message of its error. -/
def orFail {α : Type} : Except Error α → Session α
  | .ok a => return a
  | .error e => throw e.message

end Session

namespace Command

open Session

/-! ## Searching -/

/-- The observer of a session: it keeps what the search notes at the level of information or
above and, if asked to, an entry for every round. -/
def watcher {τ μ ν : Type} [Tracker τ μ ν] (everyRound : Bool) :
    Observer τ μ ν (List LogEntry) where
  wantsSnapshots := everyRound
  onRound snapshot entries := ⟨.info, "round", snapshot.fields⟩ :: entries
  onNotice notice entries :=
    match notice.entry.level with
    | .info | .warn => notice.entry :: entries
    | _ => entries

def config (common : CommonOptions) : Config where
  population := common.population
  walk := common.walkLength
  seed := common.seed
  parallel := !common.serial
  maxRounds := common.maxRounds

/-- Runs a search whose threshold follows the median, and audits its best particle if asked
to. -/
def search {τ μ ν : Type} [Tracker τ μ ν] (common : CommonOptions) (seed : UInt64)
    (policy : Policy τ μ Unit) (direction : Direction) (goal : Binary64)
    (factory : StateT Draws (Except Error) τ) : Session (Outcome τ) := do
  let schedule : MedianSchedule := { direction, goal, slack := common.slack }
  let setup : Setup τ μ ν Unit Unit (List LogEntry) :=
    { config := config common
      policy
      schedule := schedule.schedule
      observer := watcher common.roundsLog }
  let search ← orFail (Search.start setup () () [] seed fun _ => factory)
  let (outcome, entries) ← orFail (search.run setup)
  entries.reverse.forM log
  if common.audit then
    match Winners.audit outcome.best with
    | .ok _ => pure ()
    | .error fault => throw fault.message
  return outcome

/-- A sampler after its parameters were accepted, as a way to build particles. -/
def factoryOf {τ : Type} (sampler : Except Error (Sampler τ)) : StateT Draws (Except Error) τ :=
  fun draws => return (← sampler).run draws

/-- Draws from the stream of the instance. -/
def sample {α : Type} (seed : UInt64) (sampler : Except Error (Sampler α)) :
    Session (α × Draws) := do
  return (← orFail sampler).run (.ofSeed seed)

/-- The graph in a file. -/
def readGraph (path : String) (content : Except String ByteArray) :
    Session ((n : Nat) × Graph n) :=
  match Graph.ofFile path content with
  | .ok graph => return graph
  | .error fault => throw fault.message

/-! ## Problems -/

def independentSet {n : Nat} (common : CommonOptions) (seed : UInt64) (size : Nat)
    (G : Graph n) (planted : Option Nat) : Session (List String) := do
  log ⟨.info, "independent-set instance",
    [("vertices", .integer n), ("edges", .integer G.edgeCount),
      ("planted", .text (optionText (planted.map toString)))]⟩
  let outcome ← search common seed Policy.swapWalk .minimize .zero
    (factoryOf (VertexSubset.random G size))
  let (removed, best) ← orFail (Descent.descend .minimize none outcome.best)
  return ["state:        " ++ outcome.state.name,
    s!"rounds:       {outcome.rounds}",
    "density:      " ++ fixedPlaces 4 outcome.bestSeen.density,
    s!"independent:  {best.members.length} vertices after removing {removed}"] ++
    (planted.map fun size => s!"planted size: {size}").toList

def coloring {n : Nat} (common : CommonOptions) (seed : UInt64) (colors : Nat) (G : Graph n) :
    Session (List String) := do
  log ⟨.info, "coloring instance",
    [("vertices", .integer n), ("edges", .integer G.edgeCount), ("colors", .integer colors)]⟩
  let outcome ← search common seed Policy.randomRecolor .minimize .zero
    (factoryOf (Coloring.random G colors))
  let (polished, best) := outcome.bestSeen.descend none
  return ["state:     " ++ outcome.state.name,
    s!"rounds:    {outcome.rounds}",
    s!"conflicts: {best.conflicts} (after {polished} greedy recolourings)",
    s!"proper:    {best.isProper}"]

def ldpc (common : CommonOptions) (seed : UInt64) (bits columnWeight rowWeight : Nat)
    (flip initFlip : Binary64) : Session (List String) := do
  let (code, draws) ← sample seed (Code.gallager bits columnWeight rowWeight)
  let C := code.words
  let codeword := List.replicate bits false
  let (received, _) := (← orFail (Message.perturbed C codeword flip)).run draws
  log ⟨.info, "ldpc instance",
    [("bits", .integer bits), ("checks", .integer (columnWeight * (bits / rowWeight))),
      ("errors", .integer (← orFail (received.hammingDistance codeword)))]⟩
  let outcome ← search common seed Policy.uniformFlip .maximize (.ofInt C.totalWeight.toInt)
    (factoryOf (Message.perturbed C received.bits.toList initFlip))
  let (_, best) ← orFail (Descent.descend .maximize none outcome.bestSeen)
  let distance ← orFail (best.hammingDistance codeword)
  return ["state:     " ++ outcome.state.name,
    s!"rounds:    {outcome.rounds}",
    s!"satisfied: {best.score.toInt}/{C.totalWeight.toInt}",
    s!"distance:  {distance} from the sent codeword"]

/-- Carries out a command and gives the lines of its report. `content` is what reading the graph
file gave, if the command names one; `fallbackSeed` serves where no seed is given. -/
def execute (c : Command) (content : Except String ByteArray) (fallbackSeed : UInt64) :
    Session (List String) := do
  let seed := c.common.seed.getD fallbackSeed
  match c.problem with
  | .independentSet _ _ size (some path) =>
      let ⟨_, G⟩ ← readGraph path content
      independentSet c.common seed size G none
  | .independentSet vertices p size none =>
      let ((G, planted), _) ← sample seed (Graph.withPlantedIndependentSet vertices p size)
      independentSet c.common seed size G (some planted.length)
  | .coloring _ _ colors (some path) =>
      let ⟨_, G⟩ ← readGraph path content
      coloring c.common seed colors G
  | .coloring vertices p colors none =>
      let (G, _) ← sample seed (Graph.erdosRenyi vertices p)
      coloring c.common seed colors G
  | .ldpc bits columnWeight rowWeight flip initFlip =>
      ldpc c.common seed bits columnWeight rowWeight flip initFlip

end Command

/-- What the program leaves behind. -/
structure ProgramResult where
  code : Nat
  stdout : String
  stderr : String
  log : List LogEntry

/-- The result of a command: its report, or the error that ended it. -/
def Command.result (c : Command) (content : Except String ByteArray) (fallbackSeed : UInt64) :
    ProgramResult :=
  match (c.execute content fallbackSeed).run.run [] with
  | (.ok lines, log) => ⟨0, String.join (lines.map (· ++ "\n")), "", log⟩
  | (.error message, log) => ⟨1, "", "Error: " ++ message ++ "\n", log⟩

end Winners

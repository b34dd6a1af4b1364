import Winners.Search.Population
import Winners.Search.Log

set_option autoImplicit false

/-! # Observers

An observer accumulates a value `ω` from what happens in a search: every mutation, a snapshot of
the population at the end of every round, and the notices that the search itself gives. It is
shown values and returns its own, so it cannot change the course of the search.
-/

namespace Winners

/-! ## Snapshots -/

/-- One particle as a snapshot records it. -/
structure ParticleRecord (ν : Type) where
  assignment : List ν
  score : Int
  fitness : Binary64

def ParticleRecord.ofTracker {τ μ ν : Type} [Tracker τ μ ν] (t : τ) : ParticleRecord ν :=
  ⟨Tracker.assignment t, Tracker.score t, Tracker.fitness t⟩

/-- The population at the end of a round, which counts from one. -/
structure Snapshot (ν : Type) where
  round : Nat
  threshold : Binary64
  particles : List (ParticleRecord ν)

namespace Snapshot

variable {ν : Type}

/-- The first value that no other is below in the order `le`. -/
def least (le : Binary64 → Binary64 → Bool) : List Binary64 → Option Binary64
  | [] => none
  | x :: xs => some (xs.foldl (fun least y => if le least y then least else y) x)

/-- The lowest fitness in the total order. -/
def minFitness (s : Snapshot ν) : Option Binary64 :=
  least Binary64.totalLe (s.particles.map (·.fitness))

/-- The highest fitness in the total order. -/
def maxFitness (s : Snapshot ν) : Option Binary64 :=
  least (fun x y => y.totalLe x) (s.particles.map (·.fitness))

/-- The fields of a log entry about a snapshot. -/
def fields (s : Snapshot ν) : List (String × FieldValue) :=
  let shown (x : Option Binary64) : FieldValue := .text (optionText (x.map Layout.log.write))
  [("round", .integer s.round), ("threshold", .number s.threshold),
    ("particles", .integer s.particles.length), ("min_fitness", shown s.minFitness),
    ("max_fitness", shown s.maxFitness)]

end Snapshot

/-- The particles of a population, recorded. -/
def Population.snapshot {τ μ ν : Type} [Tracker τ μ ν] (P : Population τ) (round : Nat)
    (threshold : Binary64) : Snapshot ν :=
  ⟨round, threshold, P.particles.map .ofTracker⟩

/-! ## States and notices -/

/-- Where a search stands. Every state but `running` is final. -/
inductive SearchState
  /-- More rounds may follow. -/
  | running
  /-- The threshold is at the goal and some particles pass it. -/
  | succeeded
  /-- The schedule proposed a threshold that is no improvement. -/
  | stalled
  /-- No particle passes the threshold; the population is the one that failed it. -/
  | exhausted
deriving DecidableEq

def SearchState.isFinal (s : SearchState) : Bool := s != .running

def SearchState.name : SearchState → String
  | running => "RUNNING"
  | succeeded => "SUCCEEDED"
  | stalled => "STALLED"
  | exhausted => "EXHAUSTED"

/-- What a search reports about itself. -/
inductive Notice
  | opened (population walk : Nat) (seed : UInt64) (threshold : Binary64)
  | culled (round : Nat) (threshold : Binary64) (survivors : Nat)
  | stalled (round : Nat) (threshold proposed : Binary64)
  | exhausted (round : Nat) (threshold : Binary64)
  | finished (state : SearchState) (rounds : Nat) (threshold best bestSeen : Binary64)

def Notice.entry : Notice → LogEntry
  | opened population walk seed threshold =>
      ⟨.debug, "gww search initialised",
        [("population", .integer population), ("walk_length", .integer walk),
          ("seed", .integer seed.toNat), ("threshold", .number threshold)]⟩
  | culled round threshold survivors =>
      ⟨.debug, "gww round",
        [("round", .integer round), ("threshold", .number threshold),
          ("survivors", .integer survivors)]⟩
  | stalled round threshold proposed =>
      ⟨.warn, "gww stalled: threshold proposal does not improve",
        [("round", .integer round), ("threshold", .number threshold),
          ("proposed", .number proposed)]⟩
  | exhausted round threshold =>
      ⟨.warn, "gww exhausted: no particle survived the cull",
        [("round", .integer round), ("threshold", .number threshold)]⟩
  | finished state rounds threshold best bestSeen =>
      ⟨.info, "gww search finished",
        [("state", .text state.name), ("rounds", .integer rounds),
          ("threshold", .number threshold), ("best_fitness", .number best),
          ("best_seen_fitness", .number bestSeen)]⟩

/-! ## Observers -/

/-- What an observer does with each event. Snapshots are taken only for an observer that wants
them. -/
structure Observer (τ μ ν ω : Type) where
  onMutation : Nat → μ → τ → ω → ω := fun _ _ _ w => w
  wantsSnapshots : Bool := false
  onRound : Snapshot ν → ω → ω := fun _ w => w
  onNotice : Notice → ω → ω := fun _ w => w

/-- One mutation as a recorder keeps it. -/
structure Mutation (μ : Type) where
  particle : Nat
  move : μ
  score : Int

namespace Observer

variable {τ μ ν ω : Type}

/-- Observes nothing. -/
def silent : Observer τ μ ν ω := {}

/-- Collects the snapshots, the latest in front. -/
def snapshots : Observer τ μ ν (List (Snapshot ν)) where
  wantsSnapshots := true
  onRound := List.cons

/-- Collects the mutations, the latest in front. -/
def mutations [Tracker τ μ ν] : Observer τ μ ν (List (Mutation μ)) where
  onMutation particle move tracker log := ⟨particle, move, Tracker.score tracker⟩ :: log

/-- Collects the notices as log entries, the latest in front. -/
def notices : Observer τ μ ν (List LogEntry) where
  onNotice notice log := notice.entry :: log

/-- Collects log entries on mutations, rounds and notices, the latest in front. -/
def tracing [Tracker τ μ ν] : Observer τ μ ν (List LogEntry) where
  onMutation particle move tracker log :=
    ⟨.trace, "mutation",
      [("particle", .integer particle), ("mv", .text (Tracker.moveText τ move)),
        ("score", .integer (Tracker.score tracker))]⟩ :: log
  wantsSnapshots := true
  onRound snapshot log := ⟨.debug, "round snapshot", snapshot.fields⟩ :: log
  onNotice notice log := notice.entry :: log

/-- Two observers side by side. -/
def both {ω' : Type} (a : Observer τ μ ν ω) (b : Observer τ μ ν ω') :
    Observer τ μ ν (ω × ω') where
  onMutation particle move tracker w :=
    (a.onMutation particle move tracker w.1, b.onMutation particle move tracker w.2)
  wantsSnapshots := a.wantsSnapshots || b.wantsSnapshots
  onRound snapshot w :=
    (if a.wantsSnapshots then a.onRound snapshot w.1 else w.1,
      if b.wantsSnapshots then b.onRound snapshot w.2 else w.2)
  onNotice notice w := (a.onNotice notice w.1, b.onNotice notice w.2)

end Observer

end Winners

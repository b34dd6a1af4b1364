import Winners.Proofs.Search.Course
import Winners.Proofs.Walk.Relay

set_option autoImplicit false

/-! # Whoever watches a search

An observer is told of every mutation, round and notice of a search, in the order of their
occurrence, and the search does not look at what the observer makes of them. So what it is told of
can be written down as a list of events (`Observer.transcript`) and read to the observer afterwards
(`Observer.read`): it ends with the same report as if it had been present, and the search is the
same (`run_transcribed`).

The statements are about any function that carries what one observer makes of the events over to
what another one makes of them (`Observer.Relays`), and go through a search part by part.
-/

namespace Winners

variable {τ μ ν π σ ω ω' : Type} [Tracker τ μ ν]

/-! ## Events -/

/-- What an observer is told of. -/
inductive Event (τ μ ν : Type)
  | mutation (slot : Nat) (move : μ) (t : τ)
  | round (snapshot : Snapshot ν)
  | notice (notice : Notice)

namespace Event

/-- The snapshot of an event that is a round. -/
def snapshot? : Event τ μ ν → Option (Snapshot ν)
  | mutation _ _ _ => none
  | round snapshot => some snapshot
  | notice _ => none

end Event

namespace Observer

/-- What an observer makes of an event. -/
def hear (observer : Observer τ μ ν ω) (report : ω) : Event τ μ ν → ω
  | .mutation slot move t => observer.onMutation slot move t report
  | .round snapshot => observer.onRound snapshot report
  | .notice notice => observer.onNotice notice report

/-- What an observer makes of events in a row. -/
def read (observer : Observer τ μ ν ω) (events : List (Event τ μ ν)) (report : ω) : ω :=
  events.foldl observer.hear report

/-- Writes down every event that an observer is told of, the latest at the end. -/
def transcript (observer : Observer τ μ ν ω) : Observer τ μ ν (List (Event τ μ ν)) where
  onMutation slot move t events := events ++ [.mutation slot move t]
  wantsSnapshots := observer.wantsSnapshots
  onRound snapshot events := events ++ [.round snapshot]
  onNotice notice events := events ++ [.notice notice]

/-- What an observer makes of the end of a round, which it is shown only if it wants to be. -/
def shown (observer : Observer τ μ ν ω) (snapshot : Snapshot ν) (report : ω) : ω :=
  if observer.wantsSnapshots then observer.onRound snapshot report else report

/-- `f` carries what one observer makes of every event over to what another one makes of it. -/
structure Relays (f : ω → ω') (observer : Observer τ μ ν ω) (observer' : Observer τ μ ν ω') :
    Prop where
  onMutation : ∀ slot, Winners.Relays f (observer.onMutation slot) (observer'.onMutation slot)
  onRound : ∀ snapshot report,
    f (observer.shown snapshot report) = observer'.shown snapshot (f report)
  onNotice : ∀ notice report,
    f (observer.onNotice notice report) = observer'.onNotice notice (f report)

omit [Tracker τ μ ν] in
/-- What an observer makes of events carries over from their transcript. -/
theorem relays_read (observer : Observer τ μ ν ω) (report : ω) :
    observer.transcript.Relays (fun events => observer.read events report) observer where
  onMutation _ _ _ _ := List.foldl_concat ..
  onRound snapshot events := by
    unfold shown
    -- the transcript has a round just when the observer is shown it
    cases hwants : observer.wantsSnapshots with
    | false =>
        rw [if_neg Bool.false_ne_true, if_neg (show ¬observer.transcript.wantsSnapshots = true by
          rw [transcript, hwants]; exact Bool.false_ne_true)]
    | true =>
        rw [if_pos rfl, if_pos (show observer.transcript.wantsSnapshots = true from hwants)]
        exact List.foldl_concat ..
  onNotice _ _ := List.foldl_concat ..

end Observer

/-! ## Mixing -/

namespace Population

variable {f : ω → ω'} {onMutation : Nat → μ → τ → ω → ω} {onMutation' : Nat → μ → τ → ω' → ω'}
  {policy : Policy τ μ π}

theorem walkEach_relayed (h : ∀ slot, Relays f (onMutation slot) (onMutation' slot)) (steps : Nat)
    {walkers : List (τ × UInt64)} : ∀ (slot : Nat) (memory : π) (report : ω),
      walkEach policy onMutation' steps slot walkers memory (f report) =
        ((walkEach policy onMutation steps slot walkers memory report).1,
          (walkEach policy onMutation steps slot walkers memory report).2.1,
          (walkEach policy onMutation steps slot walkers memory report).2.2.1,
          f (walkEach policy onMutation steps slot walkers memory report).2.2.2) := by
  induction walkers with
  | nil =>
      intro slot memory report
      rfl
  | cons walker rest ih =>
      intro slot memory report
      have hmix : Walk.mix policy (onMutation' slot) steps
          ⟨walker.1, memory, .ofSeed (splitMix walker.2), f report⟩ = _ :=
        Walk.mix_relayed (h slot) steps ⟨walker.1, memory, .ofSeed (splitMix walker.2), report⟩
      rw [walkEach, walkEach]
      dsimp only
      rw [hmix]
      rcases Walk.mix policy (onMutation slot) steps
        ⟨walker.1, memory, .ofSeed (splitMix walker.2), report⟩ with ⟨_ | made, walk⟩
      · rfl
      · dsimp only [Walk.relayed]
        rw [ih]

/-- What mixing works on, with its report carried over. -/
def Mixing.relayed (f : ω → ω') (s : Mixing τ π ω) : Mixing τ π ω' :=
  ⟨s.population, s.memory, s.draws, f s.report⟩

theorem mixAll_relayed (h : ∀ slot, Relays f (onMutation slot) (onMutation' slot)) (steps : Nat)
    (s : Mixing τ π ω) :
    mixAll policy onMutation' steps (s.relayed f) =
      ((mixAll policy onMutation steps s).1, (mixAll policy onMutation steps s).2.relayed f) := by
  unfold mixAll Mixing.relayed
  rcases s.population.seeds.run s.draws with ⟨seeds, draws⟩
  dsimp only
  rw [walkEach_relayed h]

/-- What mutations have no part in stays as it is. -/
theorem report_mixAll_of_ignored (h : ∀ slot move t report, f (onMutation slot move t report) =
    f report) (steps : Nat) (s : Mixing τ π ω) :
    f (mixAll policy onMutation steps s).2.report = f s.report := by
  -- walks that nobody watches come from the watched ones, and from those with nothing to report
  have hwatched : ∀ slot, Relays f (onMutation slot) fun _ _ report => report := h
  have hnothing : Nat → Relays (fun _ : Unit => f s.report) (fun (_ : μ) (_ : τ) u => u)
      fun _ _ report => report := fun _ _ _ _ => rfl
  have hignored : mixAll policy (fun _ _ _ report => report) steps (s.relayed f) = _ :=
    mixAll_relayed hwatched steps s
  have hconst : mixAll policy (fun _ _ _ report => report) steps (s.relayed f) = _ :=
    mixAll_relayed hnothing steps ⟨s.population, s.memory, s.draws, ()⟩
  exact congrArg (·.2.report) (hignored.symm.trans hconst)

end Population

/-! ## Searches -/

/-- The same setup with another observer. -/
def Setup.watchedBy (setup : Setup τ μ ν π σ ω) (observer : Observer τ μ ν ω') :
    Setup τ μ ν π σ ω' :=
  ⟨setup.config, setup.policy, setup.schedule, observer⟩

namespace Search

/-- The search with its report carried over. -/
def relayed (f : ω → ω') (s : Search τ π σ ω) : Search τ π σ ω' :=
  ⟨s.population, s.bestSeen, s.draws, s.memory, s.plan, f s.report, s.threshold, s.state, s.round,
    s.history⟩

variable {f : ω → ω'} {setup : Setup τ μ ν π σ ω} {observer : Observer τ μ ν ω'}

theorem mix_relayed (h : setup.observer.Relays f observer) (s : Search τ π σ ω) :
    mix (setup.watchedBy observer) (s.relayed f) =
      ((mix setup s).1, (mix setup s).2.relayed f) := by
  have hmix : Population.mixAll setup.policy observer.onMutation setup.config.walk
      ⟨s.population, s.memory, s.draws, f s.report⟩ = _ :=
    Population.mixAll_relayed h.onMutation _ ⟨s.population, s.memory, s.draws, s.report⟩
  unfold mix Setup.watchedBy relayed
  dsimp only
  rw [hmix]
  rfl

theorem recordBest_relayed (d : Direction) (s : Search τ π σ ω) :
    (s.relayed f).recordBest d = (s.recordBest d).relayed f := by
  unfold recordBest relayed
  dsimp only
  cases s.population.best d with
  | none => rfl
  | some best =>
      dsimp only
      split <;> rfl

theorem select_relayed (h : setup.observer.Relays f observer) (s : Search τ π σ ω) :
    select (setup.watchedBy observer) (s.relayed f) =
      ((select setup s).1, (select setup s).2.relayed f) := by
  unfold select Setup.watchedBy relayed
  dsimp only
  rcases s.population.cull _ with ⟨survivors | _, population⟩
  · dsimp only
    rcases population.refill setup.config.population s.draws with ⟨e | copies, filled, draws⟩
    · rfl
    · dsimp only
      rw [← h.onNotice]
  · rfl

theorem judge_relayed (h : setup.observer.Relays f observer) (proposed : Binary64)
    (s : Search τ π σ ω) :
    judge (setup.watchedBy observer) proposed (s.relayed f) =
      ((judge setup proposed s).1, (judge setup proposed s).2.relayed f) := by
  unfold judge
  split
  · next hbetter =>
      rw [if_pos (show setup.schedule.direction.improves proposed s.threshold = true from hbetter)]
      exact select_relayed h { s with threshold := proposed, history := s.history.push proposed }
  · next hworse =>
      rw [if_neg (show ¬setup.schedule.direction.improves proposed s.threshold = true from hworse)]
      rfl

theorem announce_relayed (h : setup.observer.Relays f observer) (proposed : Binary64)
    (s : Search τ π σ ω) :
    announce (setup.watchedBy observer) proposed (s.relayed f) =
      (announce setup proposed s).relayed f := by
  have hshown : f (if setup.observer.wantsSnapshots then
      setup.observer.onRound (s.population.snapshot s.round s.threshold) s.report else s.report) =
      if observer.wantsSnapshots then
        observer.onRound (s.population.snapshot s.round s.threshold) (f s.report) else f s.report :=
    h.onRound _ _
  unfold announce Setup.watchedBy relayed
  dsimp only
  rw [← hshown]
  cases s.state with
  | running => rfl
  | succeeded => rfl
  | stalled =>
      dsimp only
      rw [h.onNotice]
  | exhausted =>
      dsimp only
      rw [h.onNotice]

theorem concluded_relayed (h : setup.observer.Relays f observer) (proposed : Binary64)
    (judged : Except Error Unit × Search τ π σ ω) :
    concluded (setup.watchedBy observer) proposed (judged.1, judged.2.relayed f) =
      ((concluded setup proposed judged).1, (concluded setup proposed judged).2.relayed f) := by
  rcases judged with ⟨_ | _, s⟩
  · rfl
  · dsimp only [concluded]
    rw [announce_relayed h]
    rfl

theorem consult_relayed (s : Search τ π σ ω) :
    consult (setup.watchedBy observer) (s.relayed f) =
      ((consult setup s).1, (consult setup s).2.relayed f) := by
  have hrecord : (s.relayed f).recordBest setup.schedule.direction =
      (s.recordBest setup.schedule.direction).relayed f := recordBest_relayed _ s
  unfold consult
  dsimp only [Setup.watchedBy]
  rw [hrecord]
  rfl

theorem settle_relayed (h : setup.observer.Relays f observer) (s : Search τ π σ ω) :
    settle (setup.watchedBy observer) (s.relayed f) =
      ((settle setup s).1, (settle setup s).2.relayed f) := by
  rw [settle_eq_concluded, settle_eq_concluded, consult_relayed, judge_relayed h,
    concluded_relayed h]

/-- **A step is the same whoever watches it**, and its report is carried over. -/
theorem step_relayed (h : setup.observer.Relays f observer) (s : Search τ π σ ω) :
    step (setup.watchedBy observer) (s.relayed f) =
      ((step setup s).1, (step setup s).2.relayed f) := by
  have hmix : mix (setup.watchedBy observer) { s.relayed f with round := s.round + 1 } = _ :=
    mix_relayed h { s with round := s.round + 1 }
  unfold step
  cases hfinal : s.state.isFinal with
  | true =>
      rw [if_pos (show (s.relayed f).state.isFinal = true from hfinal)]
      rfl
  | false =>
      rw [if_neg (Bool.eq_false_iff.mp (show (s.relayed f).state.isFinal = false from hfinal)),
        if_neg Bool.false_ne_true]
      dsimp only [relayed] at hmix ⊢
      rw [hmix]
      rcases mix setup { s with round := s.round + 1 } with ⟨_ | _, mixed⟩
      · rfl
      · exact settle_relayed h mixed

/-! ## Runs -/

theorem proceed_relayed (h : setup.observer.Relays f observer) (s : Search τ π σ ω) :
    proceed (setup.watchedBy observer) (s.relayed f) =
      ((proceed setup s).1, (proceed setup s).2.relayed f) := by
  induction s using proceed.induct setup with
  | case1 s hstops =>
      rw [proceed_of_stops hstops]
      exact proceed_of_stops hstops
  | case2 s hstops e s' hstep =>
      rw [proceed_of_failed hstops hstep]
      exact proceed_of_failed hstops ((step_relayed h s).trans (by rw [hstep]))
  | case3 s hstops state s' hstep _ ih =>
      rw [proceed_of_step hstops hstep, ← ih]
      exact proceed_of_step hstops ((step_relayed h s).trans (by rw [hstep]))

theorem finish_relayed (h : setup.observer.Relays f observer) (s : Search τ π σ ω) :
    finish (setup.watchedBy observer) (s.relayed f) =
      (finish setup s).map fun finished => (finished.1, f finished.2) := by
  have hnotice := fun notice => h.onNotice notice s.report
  unfold finish Setup.watchedBy relayed
  dsimp only
  cases s.population.best setup.schedule.direction with
  | none => rfl
  | some best =>
      dsimp only
      rw [← hnotice]
      rfl

/-- **A run is the same whoever watches it**, and its report is carried over. -/
theorem run_relayed (h : setup.observer.Relays f observer) (s : Search τ π σ ω) :
    run (setup.watchedBy observer) (s.relayed f) =
      (run setup s).map fun finished => (finished.1, f finished.2) := by
  unfold run
  rw [proceed_relayed h]
  rcases proceed setup s with ⟨_ | _, last⟩
  · rfl
  · exact finish_relayed h last

/-! ## Transcripts -/

/-- **Whatever an observer reports of a run, it reports of the transcript of that run.** -/
theorem run_transcribed {s : Search τ π σ ω} {outcome : Outcome τ} {report : ω}
    (h : run setup s = .ok (outcome, report)) :
    ∃ events, run (setup.watchedBy setup.observer.transcript) (s.relayed fun _ => []) =
        .ok (outcome, events) ∧ report = setup.observer.read events s.report := by
  let transcribed := setup.watchedBy setup.observer.transcript
  have hread : run (transcribed.watchedBy setup.observer)
      ((s.relayed fun _ => []).relayed fun events => setup.observer.read events s.report) = _ :=
    run_relayed (setup.observer.relays_read s.report) _
  rw [show run setup s = _ from hread] at h
  cases hrun : run (setup.watchedBy setup.observer.transcript) (s.relayed fun _ => []) with
  | error e =>
      rw [hrun] at h
      cases h
  | ok finished =>
      rw [hrun] at h
      cases h
      exact ⟨finished.2, rfl, rfl⟩

end Search

end Winners

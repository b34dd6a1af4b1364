import Winners.Proofs.Search.Relay
import Winners.Proofs.Search.Termination
import Winners.Proofs.Tracker.Record

set_option autoImplicit false

/-! # Snapshots tell the story of a run

An observer that wants snapshots is shown one at the end of every round, after the state of the
search has been settled. It depends on that state whose particles the snapshot shows: those that the
walks have led to, when the search has stalled or is exhausted, and otherwise the survivors with
their copies. So a run is told by the searches that its steps lead to (`visited`), the snapshots in
its transcript are theirs (`Runs.snapshots`), and what a snapshot has to do with the history and the
outcome is what the search of its round has to do with the last one (`Depicts`, `TellStory`).
-/

namespace Winners

/-- The snapshots among events. -/
def Event.snapshots {τ μ ν : Type} (events : List (Event τ μ ν)) : List (Snapshot ν) :=
  events.filterMap Event.snapshot?

theorem Event.snapshots_concat {τ μ ν : Type} (events : List (Event τ μ ν)) (event : Event τ μ ν) :
    Event.snapshots (events ++ [event]) = Event.snapshots events ++ event.snapshot?.toList := by
  unfold Event.snapshots
  rw [List.filterMap_append]
  cases event <;> rfl

namespace Search

variable {τ μ ν π σ ω : Type} [Tracker τ μ ν] {setup : Setup τ μ ν π σ ω}

/-! ## The searches of a run -/

/-- The searches that a number of steps leads to, one after another. -/
def visited (setup : Setup τ μ ν π σ ω) : (count : Nat) → Search τ π σ ω → List (Search τ π σ ω)
  | 0, _ => []
  | count + 1, s => (step setup s).2 :: visited setup count (step setup s).2

/-- The searches of a run are those of its rounds, which are counted up. -/
theorem Runs.rounds_visited {s last : Search τ π σ ω} {count : Nat}
    (h : Runs setup s count (.ok (), last)) :
    (visited setup count s).map (·.round) = List.range' (s.round + 1) count := by
  refine h.induction_ok (Q := fun count s =>
    (visited setup count s).map (·.round) = List.range' (s.round + 1) count) (fun _ => rfl) ?_
  intro s s' state count hrunning hstep ih
  rw [visited, hstep, List.map_cons, ih, (round_of_step hstep).round_succ hrunning,
    List.range'_succ]

/-- A search on the way of some steps: so many steps lead to it, and the others lead on. -/
theorem steps_of_visited {count : Nat} : ∀ {s s' last : Search τ π σ ω} {i : Nat},
    steps setup count s = .ok last → (visited setup count s)[i]? = some s' →
      steps setup (i + 1) s = .ok s' ∧ ∃ more, count = i + 1 + more ∧
        steps setup more s' = .ok last := by
  induction count with
  | zero =>
      intro s s' last i _ hi
      cases hi
  | succ count ih =>
      intro s s' last i h hi
      obtain ⟨state, next, hstep, hrest⟩ := steps_succ_eq_ok.mp h
      rw [visited, hstep] at hi
      cases i with
      | zero =>
          cases hi
          exact ⟨steps_succ_eq_ok.mpr ⟨state, next, hstep, rfl⟩, count, Nat.add_comm _ _, hrest⟩
      | succ i =>
          obtain ⟨hsteps, more, hcount, hmore⟩ := ih hrest hi
          exact ⟨steps_succ_eq_ok.mpr ⟨state, next, hstep, hsteps⟩, more, by omega, hmore⟩

theorem length_visited (setup : Setup τ μ ν π σ ω) (count : Nat) (s : Search τ π σ ω) :
    (visited setup count s).length = count := by
  induction count generalizing s with
  | zero => rfl
  | succ count ih => rw [visited, List.length_cons, ih]

/-- The last search on the way is the one at the end. -/
theorem getLast?_visited {count : Nat} {s last : Search τ π σ ω} (hcount : 0 < count)
    (h : steps setup count s = .ok last) : (visited setup count s).getLast? = some last := by
  rw [List.getLast?_eq_getElem?, length_visited]
  have hlt : count - 1 < (visited setup count s).length := by
    rw [length_visited]
    omega
  have hlast := List.getElem?_eq_getElem hlt
  obtain ⟨-, more, hmore, hsteps⟩ := steps_of_visited h hlast
  obtain rfl : more = 0 := by omega
  cases hsteps
  exact hlast

/-! ## Whoever watches -/

section

variable {ω' : Type} {f : ω → ω'} {observer : Observer τ μ ν ω'}

theorem visited_relayed (h : setup.observer.Relays f observer) (count : Nat)
    (s : Search τ π σ ω) :
    visited (setup.watchedBy observer) count (s.relayed f) =
      (visited setup count s).map (relayed f) := by
  induction count generalizing s with
  | zero => rfl
  | succ count ih => rw [visited, step_relayed h, visited, List.map_cons, ih]

/-- The same steps are made. -/
theorem Runs.relayed (h : setup.observer.Relays f observer) {s : Search τ π σ ω} {count : Nat}
    {result : Except Error Unit × Search τ π σ ω} (hruns : Runs setup s count result) :
    Runs (setup.watchedBy observer) (s.relayed f) count (result.1, result.2.relayed f) := by
  induction hruns with
  | stopped hstops => exact .stopped hstops
  | failed hgoes hstep => exact .failed hgoes ((step_relayed h _).trans (by rw [hstep]))
  | stepped hgoes hstep _ ih => exact .stepped hgoes ((step_relayed h _).trans (by rw [hstep])) ih

end

/-! ## Snapshots in transcripts -/

/-- The snapshot that an observer is shown of a search. -/
def shot (s : Search τ π σ ω) : Snapshot ν := s.population.snapshot s.round s.threshold

theorem shot_announce (proposed : Binary64) (s : Search τ π σ ω) :
    (announce setup proposed s).shot = s.shot := by
  rw [announce_eq]
  rfl

/-- No snapshots are taken during walks. -/
theorem snapshots_walked (setup : Setup τ μ ν π σ ω) (s : Search τ π σ (List (Event τ μ ν))) :
    Event.snapshots (walked (setup.watchedBy setup.observer.transcript) s).report =
      Event.snapshots s.report := by
  refine Population.report_mixAll_of_ignored (f := Event.snapshots) ?_ setup.config.walk
    ⟨s.population, s.memory, s.draws, s.report⟩
  intro slot move t events
  exact (Event.snapshots_concat ..).trans (List.append_nil _)

/-- At the end of a round one is taken. -/
theorem snapshots_announce (hwants : setup.observer.wantsSnapshots = true) (proposed : Binary64)
    (s : Search τ π σ (List (Event τ μ ν))) :
    Event.snapshots (announce (setup.watchedBy setup.observer.transcript) proposed s).report =
      Event.snapshots s.report ++ [s.shot] := by
  unfold announce
  dsimp only [Setup.watchedBy, Observer.transcript]
  rw [if_pos hwants]
  cases s.state <;> simp only [Event.snapshots_concat] <;> simp [Event.snapshot?, shot]

/-- **A round adds the snapshot of the search that it leaves**, and no other. -/
theorem Round.snapshots (hwants : setup.observer.wantsSnapshots = true)
    {s s' : Search τ π σ (List (Event τ μ ν))} {state : SearchState}
    (hround : Round (setup.watchedBy setup.observer.transcript) s (.ok state) s')
    (hrunning : s.state = .running) :
    Event.snapshots s'.report = Event.snapshots s.report ++ [s'.shot] := by
  have hwalked := snapshots_walked setup s
  cases hround with
  | ended hfinal =>
      rw [hrunning] at hfinal
      cases hfinal
  | stalled =>
      rw [snapshots_announce hwants, shot_announce, ← hwalked]
      rfl
  | extinct =>
      rw [snapshots_announce hwants, shot_announce, ← hwalked]
      rfl
  | survived =>
      rw [snapshots_announce hwants, shot_announce, ← hwalked]
      -- the notice of the cull is no snapshot
      exact congrArg (· ++ _) ((Event.snapshots_concat ..).trans (List.append_nil _))

/-- **The snapshots of a run** are those of the searches that its steps lead to. -/
theorem Runs.snapshots (hwants : setup.observer.wantsSnapshots = true)
    {s last : Search τ π σ (List (Event τ μ ν))} {count : Nat}
    (h : Runs (setup.watchedBy setup.observer.transcript) s count (.ok (), last)) :
    Event.snapshots last.report = Event.snapshots s.report ++
      (visited (setup.watchedBy setup.observer.transcript) count s).map shot := by
  refine h.induction_ok (Q := fun count s =>
    Event.snapshots last.report = Event.snapshots s.report ++
      (visited (setup.watchedBy setup.observer.transcript) count s).map shot)
    (fun _ => (List.append_nil _).symm) ?_
  intro s s' state count hrunning hstep ih
  rw [ih, (round_of_step hstep).snapshots hwants hrunning, visited, hstep, List.append_assoc]
  rfl

theorem snapshots_finish {s : Search τ π σ (List (Event τ μ ν))} {outcome : Outcome τ}
    {events : List (Event τ μ ν)}
    (h : finish (setup.watchedBy setup.observer.transcript) s = .ok (outcome, events)) :
    Event.snapshots events = Event.snapshots s.report := by
  unfold finish at h
  split at h
  · cases h
  · cases h
    exact (Event.snapshots_concat ..).trans (List.append_nil _)

/-- **The transcript of a run has the snapshots of the searches that its steps lead to.** -/
theorem exists_transcript (hwants : setup.observer.wantsSnapshots = true) {s : Search τ π σ ω}
    {outcome : Outcome τ} {report : ω} (hrun : run setup s = .ok (outcome, report)) :
    ∃ events count last,
      run (setup.watchedBy setup.observer.transcript) (s.relayed fun _ => []) =
        .ok (outcome, events) ∧
      report = setup.observer.read events s.report ∧ Runs setup s count (.ok (), last) ∧
      finish setup last = .ok (outcome, report) ∧
      Event.snapshots events = (visited setup count s).map shot := by
  obtain ⟨events, hevents, rfl⟩ := run_transcribed hrun
  obtain ⟨count, last, hruns, hfinish⟩ := exists_runs_of_run hevents
  -- the observer is read the transcript, and all else carries over
  let transcribed := setup.watchedBy setup.observer.transcript
  let read : List (Event τ μ ν) → ω := fun events => setup.observer.read events s.report
  have hread : transcribed.observer.Relays read setup.observer :=
    setup.observer.relays_read s.report
  have hruns' : Runs (transcribed.watchedBy setup.observer) ((s.relayed fun _ => []).relayed read)
      count (.ok (), last.relayed read) := hruns.relayed hread
  have hfinish' : finish (transcribed.watchedBy setup.observer) (last.relayed read) =
      .ok (outcome, read events) := by
    rw [finish_relayed hread, hfinish]
    rfl
  have hvisited : visited setup count s =
      (visited transcribed count (s.relayed fun _ => [])).map (relayed read) :=
    visited_relayed hread count (s.relayed fun _ => [])
  refine ⟨events, count, last.relayed read, hevents, rfl, hruns', hfinish', ?_⟩
  rw [snapshots_finish hfinish, hruns.snapshots hwants, hvisited, List.map_map]
  rfl

/-! ## The search of a round and the last one -/

/-- Thresholds are never forgotten. -/
theorem Round.history_prefix {s s' : Search τ π σ ω} {state : SearchState}
    (hround : Round setup s (.ok state) s') : s.history.toList <+: s'.history.toList := by
  cases hround with
  | ended => exact List.prefix_refl _
  | stalled =>
      rw [history_announce]
      exact List.prefix_refl _
  | extinct =>
      rw [history_announce]
      exact ⟨_, Array.toList_push.symm⟩
  | survived =>
      rw [history_announce]
      exact ⟨_, Array.toList_push.symm⟩

theorem history_prefix {s last : Search τ π σ ω} {count : Nat}
    (h : steps setup count s = .ok last) : s.history.toList <+: last.history.toList :=
  steps_kept (Q := fun last => s.history.toList <+: last.history.toList)
    (fun hround hprefix => hprefix.trans hround.history_prefix) (List.prefix_refl _) h

/-- A threshold stands in the history at the place of its round, counted from the initial one. -/
theorem Consistent.getElem?_thresholds {s last : Search τ π σ ω} (h : Consistent setup s)
    {count : Nat} (hsteps : steps setup count s = .ok last) :
    (thresholds setup last)[s.history.size]? = some s.threshold := by
  have hlength : (thresholds setup s).length - 1 = s.history.size := by
    rw [thresholds, List.length_cons, Array.length_toList]
    rfl
  have hcurrent := h.current
  rw [List.getLast?_eq_getElem?, hlength] at hcurrent
  obtain ⟨later, hlater⟩ := history_prefix hsteps
  have hlt := (List.getElem?_eq_some_iff.mp hcurrent).1
  rw [thresholds, ← hlater, ← List.cons_append]
  exact (List.getElem?_append_left hlt).trans hcurrent

theorem maxRounds_ne_zero {config : Config} (h : config.validate = .ok ()) :
    config.maxRounds ≠ some 0 := by
  intro hzero
  by_cases hnone : config.population = 0
  · rw [Config.validate, if_pos hnone] at h
    cases h
  · rw [Config.validate, if_neg hnone, if_pos hzero] at h
    cases h

/-- A new search is not stopped before its first round. -/
theorem not_stops_of_start {memory : π} {plan : σ} {report : ω} {fallbackSeed : UInt64}
    {factory : Factory τ} {s : Search τ π σ ω}
    (h : start setup memory plan report fallbackSeed factory = .ok s) :
    ¬s.stops setup.config = true := by
  have hopened := opened_of_start h
  obtain ⟨⟨⟩, hvalid, -⟩ := bind_eq_ok.mp h
  rw [Bool.not_eq_true, stops_eq_false_iff]
  refine ⟨hopened.state, ?_⟩
  intro limit hlimit
  rw [hopened.round]
  apply Nat.pos_of_ne_zero
  rintro rfl
  exact maxRounds_ne_zero hvalid hlimit

/-- A fold that takes an entry just when it improves on what it has ends with one that no entry
improves on. -/
theorem not_better_of_foldl {d : Direction} {choose : Option τ → τ → Option τ}
    (hchoose : ∀ b y, choose (some b) y =
      some (if d.improves (Tracker.fitness y) (Tracker.fitness b) then y else b)) {c : τ}
    {rest : List τ} : ∀ {seen : List τ} {b : τ},
      (∀ x ∈ seen, d.improves (Tracker.fitness x) (Tracker.fitness b) = false) →
      rest.foldl choose (some b) = some c →
      ∀ x ∈ seen ++ rest, d.improves (Tracker.fitness x) (Tracker.fitness c) = false := by
  induction rest with
  | nil =>
      intro seen b hseen hfold
      cases hfold
      rwa [List.append_nil]
  | cons y ys ih =>
      intro seen b hseen hfold
      rw [List.foldl_cons, hchoose] at hfold
      rw [List.append_cons]
      refine ih ?_ hfold
      rw [List.forall_mem_append, List.forall_mem_singleton]
      split
      · next hbetter =>
          refine ⟨fun x hx => Bool.eq_false_iff.mpr fun hxy => ?_, Direction.improves_self d _⟩
          -- what improves on `y` improves on what `y` replaces
          exact Bool.eq_false_iff.mp (hseen x hx) (Direction.improves_trans hxy hbetter)
      · next hworse => exact ⟨hseen, Bool.eq_false_iff.mpr hworse⟩

/-- No particle improves on the best one, also when a fitness is a NaN. -/
theorem not_better_of_best {d : Direction} {population : Population τ} {b : τ}
    (h : population.best d = some b) : ∀ x ∈ population.particles,
      d.improves (Tracker.fitness x) (Tracker.fitness b) = false := by
  obtain ⟨particles⟩ := population
  cases particles with
  | nil => cases h
  | cons y ys =>
      rw [Population.best, List.foldl_cons] at h
      have hfirst : ∀ x ∈ [y], d.improves (Tracker.fitness x) (Tracker.fitness y) = false :=
        List.forall_mem_singleton.mpr (Direction.improves_self d _)
      refine not_better_of_foldl ?_ hfirst h
      intro b y
      dsimp only
      split <;> rfl

/-! ## The story -/

/-- **What the snapshot of a round shows**, given the search after the round and the history at the
end. -/
structure Depicts (setup : Setup τ μ ν π σ ω) (history : Array Binary64) (s : Search τ π σ ω)
    (snapshot : Snapshot ν) : Prop where
  shown : snapshot = s.population.snapshot s.round s.threshold
  size : snapshot.particles.length = setup.config.population
  genuine : ∀ r ∈ snapshot.particles, r.Genuine τ
  /-- The threshold is the one that the round has adopted. -/
  adopted : s.state ≠ .stalled → history[snapshot.round - 1]? = some snapshot.threshold
  /-- A round that stalls has adopted none, and shows the one before. -/
  repeated : s.state = .stalled →
    (setup.schedule.initial :: history.toList)[snapshot.round - 1]? = some snapshot.threshold
  passing : s.state = .running ∨ s.state = .succeeded → ∀ r ∈ snapshot.particles,
    setup.schedule.direction.passes r.fitness snapshot.threshold = true
  failing : s.state = .exhausted → ∀ r ∈ snapshot.particles,
    setup.schedule.direction.passes r.fitness snapshot.threshold = false

theorem Consistent.depicts {P : τ → Prop}
    (hgenuine : ∀ x, P x → (ParticleRecord.ofTracker x).Genuine τ) {s last : Search τ π σ ω}
    (h : Consistent setup s) (hs : Holds P s) (hround : 0 < s.round) {count : Nat}
    (hsteps : steps setup count s = .ok last) : Depicts setup last.history s s.shot where
  shown := rfl
  size := (List.length_map _).trans h.full.length
  genuine := List.forall_mem_map.mpr fun x hx => hgenuine x (hs.particles x hx)
  adopted := by
    intro hstate
    have hthreshold := h.getElem?_thresholds hsteps
    obtain ⟨i, hi⟩ := Nat.exists_eq_succ_of_ne_zero hround.ne'
    rw [h.rounds hstate, hi] at hthreshold
    show last.history[s.round - 1]? = _
    rw [hi, ← Array.getElem?_toList]
    exact hthreshold
  repeated := by
    intro hstate
    have hthreshold := h.getElem?_thresholds hsteps
    show (setup.schedule.initial :: last.history.toList)[s.round - 1]? = _
    rw [← h.rounds_stalled hstate]
    exact hthreshold
  passing hstate := List.forall_mem_map.mpr (h.passing hround hstate)
  failing hstate := List.forall_mem_map.mpr (h.failing hstate)

/-- **Snapshots that tell the story of a run.** There is one for each round, in order. Each shows
the search after so many steps, and the last one the best particle of the outcome. -/
structure TellStory (setup : Setup τ μ ν π σ ω) (s₀ : Search τ π σ ω) (outcome : Outcome τ)
    (snapshots : List (Snapshot ν)) : Prop where
  rounds : snapshots.map (·.round) = List.range' 1 outcome.rounds
  shows : ∀ i snapshot, snapshots[i]? = some snapshot →
    ∃ s, steps setup (i + 1) s₀ = .ok s ∧ Depicts setup outcome.history s snapshot
  best : ∃ last, snapshots.getLast? = some last ∧
    ParticleRecord.ofTracker outcome.best ∈ last.particles ∧
    ∀ r ∈ last.particles,
      setup.schedule.direction.improves r.fitness (Tracker.fitness outcome.best) = false

/-- **The searches that a new one runs through tell its story.** -/
theorem Runs.tellStory {P : τ → Prop} (hkeeps : setup.policy.Keeps P)
    (hgenuine : ∀ x, P x → (ParticleRecord.ofTracker x).Genuine τ) {memory : π} {plan : σ}
    {report₀ report : ω} {fallbackSeed : UInt64} {factory : Factory τ}
    (hfactory : factory.Yields P) {s₀ last : Search τ π σ ω} {outcome : Outcome τ} {count : Nat}
    (hstart : start setup memory plan report₀ fallbackSeed factory = .ok s₀)
    (hruns : Runs setup s₀ count (.ok (), last))
    (hfinish : finish setup last = .ok (outcome, report)) :
    TellStory setup s₀ outcome ((visited setup count s₀).map shot) := by
  have hopened := opened_of_start hstart
  obtain ⟨hbest, houtcome⟩ := outcome_of_finish hfinish
  refine ⟨?_, ?_, ?_⟩
  · have hvisited := hruns.rounds_visited
    have hlast := hruns.round_eq
    have hrounds : outcome.rounds = last.round := congrArg Outcome.rounds houtcome
    rw [hopened.round, Nat.zero_add] at hvisited hlast
    rw [hrounds, List.map_map, show last.round = count from hlast]
    exact hvisited
  · intro i snapshot hsnapshot
    rw [List.getElem?_map] at hsnapshot
    obtain ⟨s, hs, rfl⟩ := Option.map_eq_some_iff.mp hsnapshot
    obtain ⟨hsteps, more, -, hmore⟩ := steps_of_visited hruns.steps hs
    have hconsistent : Consistent setup s :=
      steps_kept (fun hround hs => hround.consistent hs) hopened.consistent hsteps
    have hholds : Holds P s := (Reached.start hfactory hstart).steps hsteps |>.trackers hkeeps
    have hround := round_pos_of_steps hopened.state (Nat.succ_pos i) hsteps
    have hhistory : outcome.history = last.history := congrArg Outcome.history houtcome
    rw [hhistory]
    exact ⟨s, hsteps, hconsistent.depicts hgenuine hholds hround hmore⟩
  · have hcount : 0 < count := by
      cases hruns with
      | stopped hstops => exact absurd hstops (not_stops_of_start hstart)
      | stepped => exact Nat.succ_pos _
    refine ⟨last.shot, ?_, ?_, ?_⟩
    · rw [List.getLast?_map, getLast?_visited hcount hruns.steps]
      rfl
    · exact List.mem_map_of_mem (Population.mem_of_best hbest)
    · exact List.forall_mem_map.mpr (not_better_of_best hbest)

/-- **What an observer is told of a run**: events among which the snapshots tell its story. -/
def ToldStory (setup : Setup τ μ ν π σ ω) (s₀ : Search τ π σ ω) (outcome : Outcome τ)
    (report : ω) : Prop :=
  ∃ events,
    run (setup.watchedBy setup.observer.transcript) (s₀.relayed fun _ => []) =
      .ok (outcome, events) ∧
    report = setup.observer.read events s₀.report ∧
    TellStory setup s₀ outcome (Event.snapshots events)

/-- **All runs of a setup tell their stories**: those without an error of newly built searches, if
the observer wants snapshots and the trackers are built with a property. -/
def TellsStories (setup : Setup τ μ ν π σ ω) (P : τ → Prop) : Prop :=
  ∀ {memory : π} {plan : σ} {report₀ report : ω} {fallbackSeed : UInt64} {factory : Factory τ}
    {s₀ : Search τ π σ ω} {outcome : Outcome τ}, setup.observer.wantsSnapshots = true →
    factory.Yields P → start setup memory plan report₀ fallbackSeed factory = .ok s₀ →
    run setup s₀ = .ok (outcome, report) → ToldStory setup s₀ outcome report

/-- The property may be one that implies another, which walks keep and records are genuine by. -/
theorem tellsStories {P Q : τ → Prop} (hPQ : ∀ x, P x → Q x) (hkeeps : setup.policy.Keeps Q)
    (hgenuine : ∀ x, Q x → (ParticleRecord.ofTracker x).Genuine τ) : TellsStories setup P := by
  intro memory plan report₀ report fallbackSeed factory s₀ outcome hwants hfactory hstart hrun
  have hyields : factory.Yields Q :=
    fun slot draws x draws' h => hPQ x (hfactory slot draws x draws' h)
  obtain ⟨events, count, last, hevents, hreport, hruns, hfinish, hsnapshots⟩ :=
    exists_transcript hwants hrun
  refine ⟨events, hevents, hreport, ?_⟩
  rw [hsnapshots]
  exact hruns.tellStory hkeeps hgenuine hyields hstart hfinish

end Search

open Search

/-- **Snapshots tell the story of every run** over the trackers of the library, whatever the policy,
the schedule and the seed. The observer is shown one at the end of each round, numbered from one to
the rounds of the outcome. It has the configured number of particles, whose scores and fitness are
those of their assignments. Its threshold is the one of this round in the history; a round that
stalls repeats the one before. All particles pass it while the search is running and when it has
succeeded, and none when it is exhausted. The last snapshot has the best particle of the outcome,
and none of its particles is better. -/
theorem snapshots_tell_story {π σ ω : Type} :
    (∀ {n : Nat} {G : Graph n} (setup : Setup (VertexSubset G) Nat Bool π σ ω), G.Constructed →
      TellsStories setup VertexSubset.Evolved) ∧
    (∀ {n : Nat} {G : Graph n} (setup : Setup (Coloring G) Recolor Nat π σ ω), G.Constructed →
      TellsStories setup (Tracker.Reachable Coloring.Fresh)) ∧
    (∀ {n m : Nat} {C : Code n m} (setup : Setup (Message C) Nat Bool π σ ω), C.Constructed →
      TellsStories setup (Tracker.Reachable Message.Fresh)) := by
  refine ⟨?_, ?_, ?_⟩
  · intro n G setup hG
    exact tellsStories (fun _ hS => hS.exact hG.simple)
      ((VertexSubset.kept_exact hG.simple).keeps _) fun _ hS => VertexSubset.Exact.genuine hS
  · intro n G setup hG
    exact tellsStories (fun _ hC => hC) ((Tracker.kept_reachable _).keeps _)
      fun _ hC => Coloring.genuine_of_reachable hG.simple hC
  · intro n m C setup hC
    exact tellsStories (fun _ hx => hx) ((Tracker.kept_reachable _).keeps _)
      fun _ hx => Message.genuine_of_reachable hC.dual hx

/-- A small setup with an observer that collects the snapshots. -/
def albumSetup {τ μ ν : Type} (policy : Policy τ μ Unit) (schedule : Schedule Unit) :
    Setup τ μ ν Unit Unit (List (Snapshot ν)) :=
  (smallSetup policy schedule).watchedBy .snapshots

/-- A search of identical particles with such an observer. -/
def albumSearch {τ μ ν : Type} [Tracker τ μ ν] (policy : Policy τ μ Unit)
    (schedule : Schedule Unit) (made : Except Error τ) :
    Except Error (Search τ Unit Unit (List (Snapshot ν))) :=
  start (albumSetup policy schedule) () () [] 0 (Factory.copies made)

theorem exists_album_run {τ μ ν : Type} [Tracker τ μ ν] {policy : Policy τ μ Unit}
    (hlegal : policy.Legal) (schedule : Schedule Unit) (made : Except Error τ)
    (hbuilt : (albumSearch policy schedule made).isOk = true) :
    ∃ s₀ result, albumSearch policy schedule made = .ok s₀ ∧
      run (albumSetup policy schedule) s₀ = .ok result :=
  exists_run_of_built (neverFails_of_legal hlegal) hbuilt

/-- A subset that becomes independent, a colouring that comes down to two conflicts and stalls, and
a message that becomes a codeword. -/
theorem snapshots_tell_story_small :
    (∃ s₀ result, albumSearch .uniformFlip independentSet.schedule
        (VertexSubset.ofList (Graph.path 3) [0, 1]) = .ok s₀ ∧
      run (albumSetup .uniformFlip independentSet.schedule) s₀ = .ok result ∧
      ToldStory (albumSetup .uniformFlip independentSet.schedule) s₀ result.1 result.2) ∧
    (∃ s₀ result, albumSearch .randomRecolor fallingToTwo
        (Coloring.uniform (Graph.path 3) 2) = .ok s₀ ∧
      run (albumSetup .randomRecolor fallingToTwo) s₀ = .ok result ∧
      ToldStory (albumSetup .randomRecolor fallingToTwo) s₀ result.1 result.2) ∧
    (∃ s₀ result, albumSearch .uniformFlip codeword.schedule
        (Message.ofList overlappingChecks [true, false, false]) = .ok s₀ ∧
      run (albumSetup .uniformFlip codeword.schedule) s₀ = .ok result ∧
      ToldStory (albumSetup .uniformFlip codeword.schedule) s₀ result.1 result.2) := by
  obtain ⟨hsubset, -, hmessage⟩ := @snapshots_tell_story Unit Unit (List (Snapshot Bool))
  obtain ⟨-, hcoloring, -⟩ := @snapshots_tell_story Unit Unit (List (Snapshot Nat))
  refine ⟨?_, ?_, ?_⟩
  · obtain ⟨s₀, result, hstart, hrun⟩ := exists_album_run Policy.legal_uniformFlip_subset
      independentSet.schedule (VertexSubset.ofList (Graph.path 3) [0, 1]) (by decide +kernel)
    refine ⟨s₀, result, hstart, hrun, hsubset _ (.path 3) rfl ?_ hstart hrun⟩
    exact Factory.copies_yields fun _ h => .fresh (.ofList h)
  · obtain ⟨s₀, result, hstart, hrun⟩ := exists_album_run Policy.legal_randomRecolor
      fallingToTwo (Coloring.uniform (Graph.path 3) 2) (by decide +kernel)
    refine ⟨s₀, result, hstart, hrun, hcoloring _ (.path 3) rfl ?_ hstart hrun⟩
    exact Factory.copies_yields fun _ h => .of_start (.uniform h)
  · obtain ⟨s₀, result, hstart, hrun⟩ := exists_album_run Policy.legal_uniformFlip_message
      codeword.schedule (Message.ofList overlappingChecks [true, false, false]) (by decide +kernel)
    refine ⟨s₀, result, hstart, hrun, hmessage _ constructed_overlappingChecks rfl ?_ hstart hrun⟩
    exact Factory.copies_yields fun _ h => .of_start (.ofList h)

end Winners

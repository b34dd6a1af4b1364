import Winners.Proofs.Search.Goal
import Mathlib.Logic.Function.Iterate

set_option autoImplicit false

/-! # The path of the threshold

A fixed step and a fraction of the way move a finite threshold without a look at the population. So
from a finite start their thresholds run along one path (`SteadySchedule.path`), the iterates of a
function of numbers, and all that a search decides is how far it gets (`OnPath`). What makes this
an invariant is that the path stays among the finite numbers: an adopted threshold is better than
the one before it and not past the goal, and both are finite. How proposals are rounded plays no
role.

Searches that have nothing but such a schedule in common therefore agree on their histories, as far
as both of them go (`histories_share_a_path`).
-/

namespace Winners

/-! ## Finite thresholds -/

namespace Binary64

variable {x y low high : Binary64}

theorem lt_of_not_le (hx : x.isNaN = false) (hy : y.isNaN = false) (h : ¬x ≤ y) : y < x :=
  ⟨hy, hx, not_le.mp fun hle => h ⟨hx, hy, hle⟩⟩

theorem isFinite_of_between (hlow : low.isFinite = true) (hhigh : high.isFinite = true)
    (hlowx : low < x) (hxhigh : x < high) : x.isFinite = true := by
  have hlowrank := isFinite_iff_rank.mp hlow
  have hhighrank := isFinite_iff_rank.mp hhigh
  exact isFinite_iff_rank.mpr
    ⟨hlowrank.1.trans hlowx.2.2, hxhigh.2.2.trans hhighrank.2⟩

end Binary64

/-- A threshold that is better than a finite one and not past a finite goal is finite. -/
theorem Direction.isFinite_of_stops {d : Direction} {x current goal : Binary64}
    (hcurrent : current.isFinite = true) (hgoal : goal.isFinite = true)
    (hbetter : d.improves x current = true) (hstops : x = goal ∨ d.reached x goal = false) :
    x.isFinite = true := by
  have hgoalnum := Binary64.isNaN_of_isFinite hgoal
  rcases hstops with rfl | hahead
  · exact hgoal
  · cases d with
    | minimize =>
        have hx : x < current := of_decide_eq_true hbetter
        have hgoalx := Binary64.lt_of_not_le hx.1 hgoalnum (of_decide_eq_false hahead)
        exact Binary64.isFinite_of_between hgoal hcurrent hgoalx hx
    | maximize =>
        have hx : current < x := of_decide_eq_true hbetter
        have hxgoal := Binary64.lt_of_not_le hgoalnum hx.2.1 (of_decide_eq_false hahead)
        exact Binary64.isFinite_of_between hcurrent hgoal hx hxgoal

/-! ## Steady schedules -/

/-- The schedules that move a finite threshold whatever the fitness of the population is. -/
inductive SteadySchedule
  | fixedStep (s : FixedStepSchedule)
  | fraction (s : FractionSchedule)

namespace SteadySchedule

def schedule {σ : Type} : SteadySchedule → Schedule σ
  | fixedStep s => s.schedule
  | fraction s => s.schedule

/-- The proposal that follows a finite threshold, made for no particle at all. -/
def next : SteadySchedule → Binary64 → Binary64
  | fixedStep s, current => s.propose current []
  | fraction s, current => s.propose current []

/-- The first thresholds that follow a start. -/
def path (shared : SteadySchedule) (first : Binary64) (count : Nat) : List Binary64 :=
  (List.range count).map fun i => shared.next^[i + 1] first

variable {σ : Type} {shared : SteadySchedule}

theorem shipped (shared : SteadySchedule) : (shared.schedule : Schedule σ).Shipped := by
  cases shared with
  | fixedStep s => exact .fixedStep s
  | fraction s => exact .fraction s

/-- The two schedules look at the fitness for a starting point only, and a finite threshold is its
own. -/
theorem propose_of_isFinite {current : Binary64} (h : current.isFinite = true)
    (fitness : List Binary64) (plan : σ) :
    (shared.schedule.propose current fitness plan).1 = shared.next current := by
  have hstart : ∀ fitness, startingPoint current fitness = some current := fun _ => if_pos h
  cases shared with
  | fixedStep s =>
      show s.propose current fitness = s.propose current []
      rw [FixedStepSchedule.propose, FixedStepSchedule.propose, hstart, hstart]
  | fraction s =>
      show s.propose current fitness = s.propose current []
      rw [FractionSchedule.propose, FractionSchedule.propose, hstart, hstart]

theorem isFinite_goal (h : (shared.schedule : Schedule σ).validity = .ok ()) :
    (shared.schedule : Schedule σ).goal.isFinite = true := by
  cases shared with
  | fixedStep s =>
      obtain ⟨⟨⟩, hgoal, -⟩ := bind_eq_ok.mp h
      exact (checkGoal_eq_ok hgoal).1
  | fraction s =>
      obtain ⟨⟨⟩, hgoal, -⟩ := bind_eq_ok.mp h
      exact (checkGoal_eq_ok hgoal).1

theorem path_succ (shared : SteadySchedule) (first : Binary64) (count : Nat) :
    shared.path first (count + 1) = shared.path first count ++ [shared.next^[count + 1] first] := by
  rw [path, List.range_succ, List.map_append]
  rfl

/-- A path goes on as it has begun. -/
theorem path_prefix (shared : SteadySchedule) (first : Binary64) {count more : Nat}
    (h : count ≤ more) : shared.path first count <+: shared.path first more := by
  have htake : (shared.path first more).take count = shared.path first count := by
    rw [path, ← List.map_take, List.take_range, Nat.min_eq_left h]
    rfl
  rw [← htake]
  exact List.take_prefix count _

end SteadySchedule

/-! ## Searches on the path -/

namespace Search

variable {τ μ ν π σ ω : Type} [Tracker τ μ ν] {setup : Setup τ μ ν π σ ω}
  {shared : SteadySchedule} {s s' : Search τ π σ ω}

/-- **A search on the path of its schedule**: the thresholds that it has adopted are the first ones
of the path, and the current one is the last of them. -/
structure OnPath (shared : SteadySchedule) (first : Binary64) (s : Search τ π σ ω) : Prop where
  finite : s.threshold.isFinite = true
  current : s.threshold = shared.next^[s.history.size] first
  history : s.history.toList = shared.path first s.history.size

theorem OnPath.announced {first : Binary64} (h : OnPath shared first s) (proposed : Binary64) :
    OnPath shared first (announce setup proposed s) := by
  rw [announce_eq]
  exact ⟨h.finite, h.current, h.history⟩

theorem Opened.onPath {factory : Factory τ} (h : Opened setup factory s)
    (hfinite : setup.schedule.initial.isFinite = true) :
    OnPath shared setup.schedule.initial s where
  finite := h.threshold ▸ hfinite
  current := by
    rw [h.history, h.threshold]
    rfl
  history := by
    rw [h.history]
    rfl

/-- A search that adopts a proposal goes one step down the path. -/
theorem OnPath.adopted {first : Binary64} (hschedule : setup.schedule = shared.schedule)
    (hvalid : setup.schedule.validity = .ok ()) (h : OnPath shared first s)
    (hbetter : setup.schedule.direction.improves (proposal setup s).1 s.threshold = true) :
    OnPath shared first (adopted setup s) := by
  have hshipped : setup.schedule.Shipped := hschedule ▸ shared.shipped
  have hgoal : setup.schedule.goal.isFinite = true := by
    rw [hschedule] at hvalid ⊢
    exact SteadySchedule.isFinite_goal hvalid
  have hstops := proposal_stops (hshipped.stopsAtGoal hvalid) hbetter
  have hsize : (Search.adopted setup s).history.size = s.history.size + 1 := Array.size_push _
  have hnext : (proposal setup s).1 = shared.next^[s.history.size + 1] first := by
    rw [Function.iterate_succ_apply', ← h.current, proposal, hschedule]
    exact SteadySchedule.propose_of_isFinite h.finite _ s.plan
  refine ⟨Direction.isFinite_of_stops h.finite hgoal hbetter hstops, ?_, ?_⟩
  · rw [hsize]
    exact hnext
  · rw [hsize, SteadySchedule.path_succ, ← h.history, ← hnext]
    exact Array.toList_push

/-- **A round without an error stays on the path.** -/
theorem Round.onPath {first : Binary64} (hschedule : setup.schedule = shared.schedule)
    (hvalid : setup.schedule.validity = .ok ()) {state : SearchState}
    (hround : Round setup s (.ok state) s') (h : OnPath shared first s) :
    OnPath shared first s' := by
  cases hround with
  | ended => exact h
  | stalled =>
      apply OnPath.announced
      exact ⟨h.finite, h.current, h.history⟩
  | extinct _ _ hbetter =>
      have hadopted := h.adopted hschedule hvalid hbetter
      apply OnPath.announced
      exact ⟨hadopted.finite, hadopted.current, hadopted.history⟩
  | survived _ _ hbetter =>
      have hadopted := h.adopted hschedule hvalid hbetter
      apply OnPath.announced
      exact ⟨hadopted.finite, hadopted.current, hadopted.history⟩

/-- The history of a search that starts at a finite threshold is told by its length. -/
theorem history_eq_path (hschedule : setup.schedule = shared.schedule)
    (hfinite : setup.schedule.initial.isFinite = true) {memory : π} {plan : σ} {report : ω}
    {fallbackSeed : UInt64} {factory : Factory τ} {s₀ : Search τ π σ ω}
    (hstart : start setup memory plan report fallbackSeed factory = .ok s₀) {count : Nat}
    (hsteps : steps setup count s₀ = .ok s) :
    s.history.toList = shared.path setup.schedule.initial s.history.size := by
  have hvalid := validity_of_start hstart
  have hopening : OnPath shared setup.schedule.initial s₀ :=
    (opened_of_start hstart).onPath hfinite
  have h : OnPath shared setup.schedule.initial s :=
    steps_kept (fun hround hs => hround.onPath hschedule hvalid hs) hopening hsteps
  exact h.history

end Search

open Search

/-- **Histories share a path.** Two searches have a schedule in common that moves by a fixed step or
a fraction of the way, and its initial threshold is finite. Whatever else they are and however many
steps each of them makes without an error, one of their histories begins with the other. -/
theorem histories_share_a_path {τ μ ν π σ ω τ' μ' ν' π' σ' ω' : Type} [Tracker τ μ ν]
    [Tracker τ' μ' ν'] (shared : SteadySchedule) {setup : Setup τ μ ν π σ ω}
    {setup' : Setup τ' μ' ν' π' σ' ω'} (hschedule : setup.schedule = shared.schedule)
    (hschedule' : setup'.schedule = shared.schedule)
    (hfinite : setup.schedule.initial.isFinite = true) {memory : π} {plan : σ} {report : ω}
    {fallbackSeed : UInt64} {factory : Factory τ} {s₀ s : Search τ π σ ω} {memory' : π'}
    {plan' : σ'} {report' : ω'} {fallbackSeed' : UInt64} {factory' : Factory τ'}
    {s₀' s' : Search τ' π' σ' ω'}
    (hstart : start setup memory plan report fallbackSeed factory = .ok s₀)
    (hstart' : start setup' memory' plan' report' fallbackSeed' factory' = .ok s₀')
    {count count' : Nat} (hsteps : steps setup count s₀ = .ok s)
    (hsteps' : steps setup' count' s₀' = .ok s') :
    s.history.toList <+: s'.history.toList ∨ s'.history.toList <+: s.history.toList := by
  have hinitial : setup'.schedule.initial = setup.schedule.initial := by
    rw [hschedule, hschedule']
    cases shared with
    | fixedStep => rfl
    | fraction => rfl
  have hfinite' : setup'.schedule.initial.isFinite = true := by
    rw [hinitial]
    exact hfinite
  rw [history_eq_path hschedule hfinite hstart hsteps,
    history_eq_path hschedule' hfinite' hstart' hsteps', hinitial]
  rcases Nat.le_total s.history.size s'.history.size with hle | hle
  · exact Or.inl (shared.path_prefix _ hle)
  · exact Or.inr (shared.path_prefix _ hle)

/-- A quarter of the way at a time, a search for a colouring that has gone two rounds has the
history of a search for an independent set that has gone one, and one threshold more. -/
theorem histories_share_a_path_small :
    ∃ s₀ s s₀' s', smallSearch .randomRecolor quarterOfTheWay.schedule
        (Coloring.uniform (Graph.path 3) 2) = .ok s₀ ∧
      steps (smallSetup .randomRecolor quarterOfTheWay.schedule) 2 s₀ = .ok s ∧
      smallSearch .uniformFlip quarterOfTheWay.schedule
        (VertexSubset.ofList (Graph.path 3) [0, 1]) = .ok s₀' ∧
      steps (smallSetup .uniformFlip quarterOfTheWay.schedule) 1 s₀' = .ok s' ∧
      s.history.size = 2 ∧ s'.history.toList = [.ofNat 3] ∧
      s'.history.toList <+: s.history.toList := by
  obtain ⟨s₀, s, hstart, hsteps, hsize⟩ := exists_steps_of_view
    (smallSetup .randomRecolor quarterOfTheWay.schedule)
    (smallSearch .randomRecolor quarterOfTheWay.schedule (Coloring.uniform (Graph.path 3) 2)) 2
    (·.history.size) 2 (by decide +kernel)
  obtain ⟨s₀', s', hstart', hsteps', hhistory⟩ := exists_steps_of_view
    (smallSetup .uniformFlip quarterOfTheWay.schedule)
    (smallSearch .uniformFlip quarterOfTheWay.schedule (VertexSubset.ofList (Graph.path 3) [0, 1]))
    1 (·.history.toList) [.ofNat 3] (by decide +kernel)
  have hshared := histories_share_a_path (.fraction quarterOfTheWay) rfl rfl (by decide +kernel)
    hstart hstart' hsteps hsteps'
  refine ⟨s₀, s, s₀', s', hstart, hsteps, hstart', hsteps', hsize, hhistory,
    hshared.resolve_left ?_⟩
  intro hprefix
  have hlength := hprefix.length_le
  rw [hhistory, Array.length_toList, hsize] at hlength
  exact absurd hlength (by decide)

end Winners

import Winners.Proofs.Search.Termination
import Winners.Proofs.Tracker.Audit

set_option autoImplicit false

/-! # Searches pass audits

What a search needs of its walks to keep the caches of its trackers exact is only that they change
them by mutations. `Policy` says more: its steps are planned in advance, they are carried out slot
after slot, and the first move that is refused ends them. `Roamed` asks for none of this. Besides
the steps of the search it has rounds in which each particle makes any moves at all, be it that a
walk is broken off anywhere, that it goes on after a refusal, or that walks run side by side when
one of them fails.
-/

namespace Winners

namespace Search

variable {τ μ ν π σ ω : Type} [Tracker τ μ ν] {setup : Setup τ μ ν π σ ω} {P Q : τ → Prop}
  {s s' : Search τ π σ ω}

/-- What walks leave of a search: each particle has made some moves, and the best tracker seen has
not been touched. Anything else may have changed. -/
structure Wandered (s s' : Search τ π σ ω) : Prop where
  particles : List.Forall₂ (fun x x' => ∃ moves, Tracker.replay x moves = x')
    s.population.particles s'.population.particles
  bestSeen : s'.bestSeen = s.bestSeen

/-- The searches that steps and rounds on any walks lead to. Walks may end a round, and a round may
go on after them as it does after those of a policy. -/
inductive Roamed (setup : Setup τ μ ν π σ ω) (P : τ → Prop) : Search τ π σ ω → Prop
  | start {memory : π} {plan : σ} {report : ω} {fallbackSeed : UInt64} {factory : Factory τ}
      {s : Search τ π σ ω} (hfactory : factory.Yields P)
      (h : start setup memory plan report fallbackSeed factory = .ok s) : Roamed setup P s
  | step {s : Search τ π σ ω} (h : Roamed setup P s) : Roamed setup P (step setup s).2
  | failed {s s' : Search τ π σ ω} (h : Roamed setup P s) (hwalks : Wandered s s') :
      Roamed setup P s'
  | settled {s s' : Search τ π σ ω} (h : Roamed setup P s) (hwalks : Wandered s s') :
      Roamed setup P (settle setup s').2

theorem forall_of_replayed (hQ : Tracker.Kept Q) {xs xs' : List τ}
    (h : List.Forall₂ (fun x x' => ∃ moves, Tracker.replay x moves = x') xs xs')
    (hxs : ∀ x ∈ xs, Q x) : ∀ x ∈ xs', Q x := by
  induction h with
  | nil => exact hxs
  | cons hmoves _ ih =>
      obtain ⟨hx, hrest⟩ := List.forall_mem_cons.mp hxs
      obtain ⟨moves, rfl⟩ := hmoves
      exact List.forall_mem_cons.mpr ⟨hQ.replay hx moves, ih hrest⟩

theorem Holds.wandered (hQ : Tracker.Kept Q) (h : Holds Q s) (hwalks : Wandered s s') :
    Holds Q s' where
  particles := forall_of_replayed hQ hwalks.particles h.particles
  bestSeen := hwalks.bestSeen ▸ h.bestSeen

/-- Every particle makes the same moves. -/
theorem wandered_map (s : Search τ π σ ω) (moves : List μ) :
    Wandered s { s with population := ⟨s.population.particles.map (Tracker.replay · moves)⟩ } where
  particles := List.forall₂_map_right_iff.mpr (List.forall₂_same.mpr fun _ _ => ⟨moves, rfl⟩)
  bestSeen := rfl

/-- **All trackers of a search have what mutations keep**, however it has come about. -/
theorem Roamed.holds (hstart : ∀ x, P x → Q x) (hQ : Tracker.Kept Q) (h : Roamed setup P s) :
    Holds Q s := by
  induction h with
  | start hfactory h =>
      obtain ⟨hall, -, hbestSeen, -, -⟩ := start_spec hfactory h
      exact ⟨fun x hx => hstart x (hall x hx), hstart _ (hall _ hbestSeen)⟩
  | step _ ih => exact ih.step (hQ.keeps _)
  | failed _ hwalks ih => exact ih.wandered hQ hwalks
  | settled _ hwalks ih => exact (ih.wandered hQ hwalks).settle setup

/-- The trackers of a search pass audits, and so do those of an outcome that it gives at once or
after running on. -/
structure PassesAudits (setup : Setup τ μ ν π σ ω) (s : Search τ π σ ω) : Prop where
  particles : ∀ x ∈ s.population.particles, Audited x
  bestSeen : Audited s.bestSeen
  outcome : ∀ {outcome : Outcome τ} {report : ω},
    finish setup s = .ok (outcome, report) ∨ run setup s = .ok (outcome, report) →
      Audited outcome.best ∧ Audited outcome.bestSeen

theorem Holds.passesAudits (hQ : Tracker.Kept Q) (haudit : ∀ x, Q x → Audited x)
    (h : Holds Q s) : PassesAudits setup s where
  particles x hx := haudit x (h.particles x hx)
  bestSeen := haudit _ h.bestSeen
  outcome := by
    intro outcome report hend
    obtain ⟨last, hlast, hfinish⟩ : ∃ last, Holds Q last ∧
        finish setup last = .ok (outcome, report) := by
      rcases hend with hfinish | hrun
      · exact ⟨s, h, hfinish⟩
      · exact exists_of_run (Holds.step (hQ.keeps _)) h hrun
    obtain ⟨hbest, hbestSeen⟩ := hlast.outcome hfinish
    exact ⟨haudit _ hbest, haudit _ hbestSeen⟩

end Search

open Search

/-- **No search fails an audit**, whatever its policy, schedule, observer, seed and population, and
however many steps it has taken, some of which may have failed on the way. Walks have to change
trackers by mutations and nothing else. -/
theorem searches_pass_audits {π σ ω : Type} :
    (∀ {n : Nat} {G : Graph n} {setup : Setup (VertexSubset G) Nat Bool π σ ω}
      {s : Search (VertexSubset G) π σ ω}, G.Constructed → Roamed setup VertexSubset.Evolved s →
      PassesAudits setup s) ∧
    (∀ {n : Nat} {G : Graph n} {setup : Setup (Coloring G) Recolor Nat π σ ω}
      {s : Search (Coloring G) π σ ω}, G.Constructed →
      Roamed setup (Tracker.Reachable Coloring.Fresh) s → PassesAudits setup s) ∧
    (∀ {n m : Nat} {C : Code n m} {setup : Setup (Message C) Nat Bool π σ ω}
      {s : Search (Message C) π σ ω}, C.Constructed →
      Roamed setup (Tracker.Reachable Message.Fresh) s → PassesAudits setup s) := by
  refine ⟨?_, ?_, ?_⟩
  · intro n G setup s hG h
    have hkept := VertexSubset.kept_exact hG.simple
    exact (h.holds (fun _ hS => hS.exact hG.simple) hkept).passesAudits hkept
      fun _ hS => hS.audited
  · intro n G setup s hG h
    have hkept := Tracker.kept_reachable (Coloring.Fresh (G := G))
    exact (h.holds (fun _ hC => hC) hkept).passesAudits hkept
      fun _ hC => Coloring.audited_of_reachable hG.simple hC
  · intro n m C setup s hC h
    have hkept := Tracker.kept_reachable (Message.Fresh (C := C))
    exact (h.holds (fun _ hx => hx) hkept).passesAudits hkept
      fun _ hx => Message.audited_of_reachable hC.dual hx

/-- A step of two flips, the second of a vertex that a path does not have. -/
def Policy.overreaching {τ : Type} : Policy τ Nat Unit where
  propose _ memory := return (some 0, memory)
  plan _ memory := return ([0, 9], memory)

/-- A round of subsets of a path that ends after the first flip of the first particle, a round of
colourings that ends when each vertex `0` has its other colour, and a round of messages that goes on
after two flips of each. -/
theorem searches_pass_audits_small :
    (∃ s₀, smallSearch .overreaching independentSet.schedule
        (VertexSubset.ofList (Graph.path 3) [0, 1]) = .ok s₀ ∧
      (step (smallSetup .overreaching independentSet.schedule) s₀).1 =
        .error (.indexOutOfRange 9 3) ∧
      PassesAudits (smallSetup .overreaching independentSet.schedule)
        (step (smallSetup .overreaching independentSet.schedule) s₀).2) ∧
    (∃ s₀, smallSearch .randomRecolor properColoring.schedule
        (Coloring.uniform (Graph.path 3) 2) = .ok s₀ ∧
      PassesAudits (smallSetup .randomRecolor properColoring.schedule)
        { s₀ with population := ⟨s₀.population.particles.map (Tracker.replay · [⟨0, 1⟩])⟩ }) ∧
    (∃ s₀, smallSearch .uniformFlip codeword.schedule
        (Message.ofList overlappingChecks [true, false, false]) = .ok s₀ ∧
      PassesAudits (smallSetup .uniformFlip codeword.schedule)
        (settle (smallSetup .uniformFlip codeword.schedule) { s₀ with
          population := ⟨s₀.population.particles.map (Tracker.replay · [0, 9, 1])⟩ }).2) := by
  obtain ⟨hsubset, hcoloring, hmessage⟩ := @searches_pass_audits Unit Unit Unit
  refine ⟨?_, ?_, ?_⟩
  · obtain ⟨s₀, s, hstart, hsteps, hview⟩ := exists_steps_of_view
      (smallSetup .overreaching independentSet.schedule)
      (smallSearch .overreaching independentSet.schedule
        (VertexSubset.ofList (Graph.path 3) [0, 1])) 0
      (fun s => (step (smallSetup .overreaching independentSet.schedule) s).1)
      (.error (.indexOutOfRange 9 3)) (by decide +kernel)
    cases hsteps
    refine ⟨s₀, hstart, hview, hsubset (.path 3) (.step (.start ?_ hstart))⟩
    exact Factory.copies_yields fun _ h => .fresh (.ofList h)
  · obtain ⟨s₀, s, hstart, hsteps, -⟩ := exists_steps_of_view
      (smallSetup .randomRecolor properColoring.schedule)
      (smallSearch .randomRecolor properColoring.schedule (Coloring.uniform (Graph.path 3) 2)) 0
      (fun _ => ()) () (by decide +kernel)
    cases hsteps
    refine ⟨s₀, hstart, hcoloring (.path 3) (.failed (.start ?_ hstart) (wandered_map s₀ _))⟩
    exact Factory.copies_yields fun _ h => .of_start (.uniform h)
  · obtain ⟨s₀, s, hstart, hsteps, -⟩ := exists_steps_of_view
      (smallSetup .uniformFlip codeword.schedule)
      (smallSearch .uniformFlip codeword.schedule
        (Message.ofList overlappingChecks [true, false, false])) 0
      (fun _ => ()) () (by decide +kernel)
    cases hsteps
    refine ⟨s₀, hstart, hmessage constructed_overlappingChecks
      (.settled (.start ?_ hstart) (wandered_map s₀ _))⟩
    exact Factory.copies_yields fun _ h => .of_start (.ofList h)

end Winners

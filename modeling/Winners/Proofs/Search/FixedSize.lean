import Winners.CommandLine.Report
import Winners.Proofs.Search.Termination
import Winners.Proofs.Tracker.Descent
import Winners.Proofs.Walk.Size

set_option autoImplicit false

/-! # Searches of a fixed size

A swap walk keeps the size of a subset. So do the rounds of a search on swap walks, which copy and
drop subsets but make no others. Once random subsets of a size have been drawn, all subsets that the
search ever holds are of this size, and so is the best of them that it gives out
(`Outcome.OfSize`). Thinning this one out until it is independent takes away what the size says is
no longer there. It takes exact caches too, and swap walks keep these along with the size.
-/

namespace Winners

/-! ## Factories of samplers -/

namespace Command

variable {τ : Type} {made : Except Error (Sampler τ)}

theorem factoryOf_total {sampler : Sampler τ} (h : made = .ok sampler) :
    Factory.Total fun _ => factoryOf made := by
  intro slot draws
  refine ⟨sampler.run draws, ?_⟩
  rw [h]
  rfl

theorem factoryOf_yields {P : τ → Prop}
    (h : ∀ {sampler}, made = .ok sampler → ∀ draws, P (StateT.run sampler draws).1) :
    Factory.Yields (fun _ => factoryOf made) P := by
  intro slot draws t draws' hrun
  obtain ⟨sampler, hsampler, hmade⟩ := bind_eq_ok.mp hrun
  have hdrawn := h hsampler draws
  rwa [show sampler.run draws = (t, draws') from Except.ok.inj hmade] at hdrawn

end Command

/-! ## Outcomes -/

/-- An outcome of subsets of one size. The best of them can be thinned out to an independent set,
which counts the vertices that are removed by those that are left. -/
structure Outcome.OfSize {n : Nat} {G : Graph n} (size : Nat) (outcome : Outcome (VertexSubset G)) :
    Prop where
  best : outcome.best.members.length = size
  bestSeen : outcome.bestSeen.members.length = size
  thinned : ∃ removed T, Descent.descend .minimize none outcome.best = .ok (removed, T) ∧
    T.members ⊆ outcome.best.members ∧ G.isIndependent (T.members.map Fin.val) = true ∧
    T.members.length ≤ size ∧ removed = size - T.members.length

namespace Search

variable {n : Nat} {G : Graph n} {size : Nat} {π σ ω : Type}
  {setup : Setup (VertexSubset G) Nat Bool π σ ω} {s : Search (VertexSubset G) π σ ω}

theorem Holds.ofSize_outcome (hG : G.Simple) (hs : Holds (VertexSubset.OfSize size) s)
    {outcome : Outcome (VertexSubset G)} {report : ω}
    (h : finish setup s = .ok (outcome, report)) : outcome.OfSize size := by
  obtain ⟨hbest, hbestSeen⟩ := hs.outcome h
  obtain ⟨removed, T, hthinned, hdescend, -⟩ := hbest.exact.exists_thinned hG
  have hcount := hthinned.count
  have hle := hthinned.length_le
  rw [hbest.length_members] at hcount hle
  exact ⟨hbest.length_members, hbestSeen.length_members, removed, T, hdescend, hthinned.subset,
    hthinned.independent, hle, hcount⟩

end Search

open Search

/-- **A search on swap walks keeps the size of its random subsets**, whatever way their members are
chosen, as long as they are distinct and as many as asked for. Where the configuration and the
schedule are not refused, it can be built and can make any number of rounds. All of its particles
have the size then, and the best subset seen. It can give an outcome at once or after running on,
and what comes out of the outcome by removing vertices is independent. -/
theorem swap_search_keeps_size {n : Nat} {G : Graph n} (hG : G.Constructed)
    {choose : Sampler.IndexChoice} (hchoose : choose.Distinct) {size : Nat} (hsize : size ≤ n)
    {π σ ω : Type} {setup : Setup (VertexSubset G) Nat Bool π σ ω}
    (hpolicy : setup.policy = .swapWalk) (hconfig : setup.config.validate = .ok ())
    (hschedule : setup.schedule.validity = .ok ()) (memory : π) (plan : σ) (report : ω)
    (fallbackSeed : UInt64) :
    ∃ s₀, start setup memory plan report fallbackSeed
        (fun _ => Command.factoryOf (VertexSubset.random G size choose)) = .ok s₀ ∧
      ∀ rounds, ∃ s, steps setup rounds s₀ = .ok s ∧
        (∀ S ∈ s.population.particles, S.members.length = size) ∧
        s.bestSeen.members.length = size ∧
        (∃ outcome report, finish setup s = .ok (outcome, report) ∧ outcome.OfSize size) ∧
        ∃ outcome report, run setup s = .ok (outcome, report) ∧ outcome.OfSize size := by
  obtain ⟨sampler, hsampler⟩ := VertexSubset.exists_random (G := G) choose hsize
  obtain ⟨s₀, hstart⟩ := exists_start (Command.factoryOf_total hsampler) hconfig hschedule memory
    plan report fallbackSeed
  refine ⟨s₀, hstart, ?_⟩
  intro rounds
  have hlegal : setup.policy.Legal := hpolicy ▸ Policy.legal_swapWalk
  have hkeeps : setup.policy.Keeps (VertexSubset.OfSize size) := by
    rw [hpolicy]
    exact Policy.keeps_swapWalk hG.simple size
  have hreached : Reached setup (VertexSubset.OfSize size) s₀ :=
    .start (Command.factoryOf_yields (VertexSubset.ofSize_random hchoose)) hstart
  obtain ⟨s, hsteps, hfull⟩ := exists_steps hlegal rounds hreached.full
  have hholds := (hreached.steps hsteps).trackers hkeeps
  have hsound := hfull.sound hlegal
  refine ⟨s, hsteps, fun S hS => (hholds.particles S hS).length_members,
    hholds.bestSeen.length_members, ?_, ?_⟩
  · obtain ⟨⟨outcome, report⟩, hfinish⟩ := hsound.finish
    exact ⟨outcome, report, hfinish, hholds.ofSize_outcome hG.simple hfinish⟩
  · obtain ⟨⟨outcome, report⟩, hrun⟩ := hsound.run
    obtain ⟨last, hlast, hfinish⟩ := exists_of_run (Holds.step hkeeps) hholds hrun
    exact ⟨outcome, report, hrun, hlast.ofSize_outcome hG.simple hfinish⟩

/-- Pairs of vertices of a path, each thinned out to one or two vertices. -/
theorem swap_search_keeps_size_small :
    ∃ s₀, start (smallSetup .swapWalk independentSet.schedule) () () () 0
        (fun _ => Command.factoryOf (VertexSubset.random (Graph.path 3) 2)) = .ok s₀ ∧
      ∃ s, steps (smallSetup .swapWalk independentSet.schedule) 2 s₀ = .ok s ∧
        s.bestSeen.members.length = 2 ∧
        ∃ outcome report,
          run (smallSetup .swapWalk independentSet.schedule) s = .ok (outcome, report) ∧
          outcome.OfSize 2 := by
  obtain ⟨s₀, hstart, hrounds⟩ := swap_search_keeps_size (.path 3) Sampler.distinct_indices
    (show 2 ≤ 3 by decide)
    (show (smallSetup (τ := VertexSubset (Graph.path 3)) .swapWalk
      independentSet.schedule).policy = .swapWalk from rfl) (by decide +kernel)
    (by decide +kernel) () () () 0
  obtain ⟨s, hsteps, -, hbestSeen, -, hrun⟩ := hrounds 2
  exact ⟨s₀, hstart, s, hsteps, hbestSeen, hrun⟩

end Winners

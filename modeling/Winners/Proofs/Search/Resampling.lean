import Winners.Proofs.Search.Population
import Winners.Proofs.Tracker.Message

set_option autoImplicit false

/-! # Culls and what fills the gaps

A cull leaves the particles that are accepted, in their order, or all of them if none is. Filling up
then goes on until the population has its size. Every copy is appended to the list that the next
donor is read from, but donors are drawn among the first particles only, as many as there were
before. So a copy is never copied, and what was accepted of the particles left by the cull is true
of all in the end (`cull_and_fill_up_keep_winners`).
-/

namespace Winners

namespace Population

variable {τ μ ν : Type} [Tracker τ μ ν]

/-! ## Culls -/

theorem passing_eq_nil_iff {keep : Binary64 → Bool} {population : Population τ} :
    population.passing keep = [] ↔
      ∀ x ∈ population.particles, keep (Tracker.fitness x) = false := by
  rw [passing, List.filter_eq_nil_iff]
  simp only [Bool.not_eq_true]

/-- A cull of which particles survive has accepted some. -/
theorem cull_eq_survived {keep : Binary64 → Bool} {population : Population τ} {k : Nat}
    (h : (population.cull keep).1 = .survived k) :
    0 < k ∧ (population.cull keep).2 = ⟨population.passing keep⟩ ∧
      (population.passing keep).length = k := by
  by_cases hnone : population.passing keep = []
  · rw [cull_of_none hnone] at h
    cases h
  · rw [cull_of_some hnone] at h ⊢
    cases h
    exact ⟨List.length_pos_iff.mpr hnone, rfl, rfl⟩

/-! ## Filling up -/

/-- **What `refill` does with a population** that is neither empty nor too large. For each
copy one draw is made, among as many slots as there were particles before. -/
structure Refilled (population : Population τ) (target : Nat) (draws : Draws)
    (result : Except Error Nat × Population τ × Draws) : Prop where
  pos : 0 < population.particles.length
  returned : result.1 = .ok (target - population.particles.length)
  length : result.2.1.particles.length = target
  kept : ∀ slot, slot < population.particles.length →
    result.2.1.particles[slot]? = population.particles[slot]?
  copied : ∀ slot, population.particles.length ≤ slot → slot < target →
    ∃ donor, ((donors population.particles.length pos (target - population.particles.length)).run
        draws).1[slot - population.particles.length]? = some donor ∧
      result.2.1.particles[slot]? = some (population.particles.get donor)
  drawn : result.2.2 = ((donors population.particles.length pos
    (target - population.particles.length)).run draws).2

omit [Tracker τ μ ν] in
theorem refilled_refill {target : Nat} {population : Population τ}
    (pos : 0 < population.particles.length) (hle : population.particles.length ≤ target)
    (draws : Draws) : Refilled population target draws (population.refill target draws) := by
  obtain ⟨filling, hfilling, hrun⟩ := exists_fillUp pos hle
  have hlength := length_donors pos (target - population.particles.length) draws
  rw [refill_of_ok hfilling, hrun]
  refine ⟨pos, rfl, ?_, ?_, ?_, rfl⟩
  · rw [List.length_append, List.length_map, hlength]
    omega
  · intro slot hslot
    exact List.getElem?_append_left hslot
  · intro slot hslot htarget
    have hdonor := List.getElem?_eq_getElem
      (show slot - population.particles.length < _ by rw [hlength]; omega)
    refine ⟨_, hdonor, ?_⟩
    rw [List.getElem?_append_right hslot, List.getElem?_map, hdonor]
    rfl

omit [Tracker τ μ ν] in
theorem Refilled.mem {population filled : Population τ} {target : Nat} {draws rest : Draws}
    {result : Except Error Nat} (h : Refilled population target draws (result, filled, rest))
    {x : τ} (hx : x ∈ filled.particles) : x ∈ population.particles := by
  obtain ⟨slot, hslot⟩ := List.mem_iff_getElem?.mp hx
  -- a slot from before, or that of a copy
  rcases Nat.lt_or_ge slot population.particles.length with hlt | hge
  · exact List.mem_of_getElem? ((h.kept slot hlt).symm.trans hslot)
  · have htarget : slot < target := h.length ▸ (List.getElem?_eq_some_iff.mp hslot).1
    obtain ⟨donor, -, hcopy⟩ := h.copied slot hge htarget
    rw [hslot, Option.some.injEq] at hcopy
    exact hcopy ▸ List.get_mem population.particles donor

end Population

open Population

/-- **After a cull only winners are copied.** A cull reports extinction just when no particle is
accepted, and then leaves the population as it is. Otherwise it leaves the particles that are
accepted, in their order, and says how many. Filling them up to any larger number keeps them in
their slots and makes a copy for every other slot, of the particle in a slot that is drawn among
theirs; so all particles are accepted in the end. An empty population cannot be filled up, nor
one to less than it has, and the attempt changes nothing. -/
theorem cull_and_fill_up_keep_winners {τ μ ν : Type} [Tracker τ μ ν] (keep : Binary64 → Bool)
    (population : Population τ) :
    ((population.cull keep).1 = .extinct ↔
      ∀ x ∈ population.particles, keep (Tracker.fitness x) = false) ∧
    ((population.cull keep).1 = .extinct → (population.cull keep).2 = population) ∧
    (∀ k, (population.cull keep).1 = .survived k →
      0 < k ∧ (population.cull keep).2.particles.length = k ∧
      (population.cull keep).2.particles =
        population.particles.filter (fun x => keep (Tracker.fitness x)) ∧
      ∀ target draws, k ≤ target →
        Refilled (population.cull keep).2 target draws
          ((population.cull keep).2.refill target draws) ∧
        ∀ x ∈ ((population.cull keep).2.refill target draws).2.1.particles,
          keep (Tracker.fitness x) = true) ∧
    (∀ target draws, population.particles = [] →
      population.refill target draws = (.error .emptyPopulation, population, draws)) ∧
    ∀ target draws, target < population.particles.length →
      population.refill target draws =
        (.error (.invalid (.shrinking population.particles.length target)), population, draws) := by
  refine ⟨?_, ?_, ?_, fun target draws h => refill_of_error (fillUp_of_nil h) draws,
    fun target draws h => refill_of_error (fillUp_of_lt h) draws⟩
  · rw [← passing_eq_nil_iff]
    by_cases hnone : population.passing keep = []
    · simp only [cull_of_none hnone, hnone]
    · simp only [cull_of_some hnone, hnone, reduceCtorEq]
  · intro hextinct
    by_cases hnone : population.passing keep = []
    · rw [cull_of_none hnone]
    · rw [cull_of_some hnone] at hextinct
      cases hextinct
  · intro k hk
    obtain ⟨hpos, hsurvivors, hlength⟩ := cull_eq_survived hk
    rw [hsurvivors]
    refine ⟨hpos, hlength, rfl, ?_⟩
    intro target draws hle
    have hrefilled : Refilled (⟨population.passing keep⟩ : Population τ) target draws _ :=
      refilled_refill (hlength ▸ hpos) (hlength ▸ hle) draws
    exact ⟨hrefilled, fun x hx => (mem_passing.mp (hrefilled.mem hx)).2⟩

/-- Four messages, one of which satisfies no check. -/
def fourMessages : Population (Message overlappingChecks) :=
  ⟨[.ofBits _ #v[false, true, false], .zeros _, .ofBits _ #v[true, true, true],
    .ofBits _ #v[true, true, false]]⟩

/-- That one goes, and each of two copies is of another one. -/
theorem cull_and_fill_up_keep_winners_messages :
    let passes (fitness : Binary64) := Direction.maximize.passes fitness (.ofNat 2)
    (fourMessages.cull passes).1 = .survived 3 ∧
      ((fourMessages.cull passes).2.refill 5 (.ofSeed 7)).1 = .ok 2 ∧
      ∀ x ∈ ((fourMessages.cull passes).2.refill 5 (.ofSeed 7)).2.1.particles,
        passes (Tracker.fitness x) = true := by
  intro passes
  obtain ⟨-, -, hsurvived, -, -⟩ := cull_and_fill_up_keep_winners passes fourMessages
  have hthree : (fourMessages.cull passes).1 = .survived 3 := by decide +kernel
  obtain ⟨-, hlength, -, hrefill⟩ := hsurvived 3 hthree
  obtain ⟨hrefilled, hpasses⟩ := hrefill 5 (.ofSeed 7) (by decide)
  exact ⟨hthree, by rw [hrefilled.returned, hlength], hpasses⟩

end Winners

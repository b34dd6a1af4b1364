import Winners.Proofs.Sequence
import Winners.Proofs.Walk.Mixing
import Winners.Search.Population

set_option autoImplicit false

/-! # What happens to the particles of a population

Building a population gives it what the factory yields. Mixing keeps what walk steps keep, a cull
leaves the particles that are accepted, and filling up adds copies of particles that are there. The
best particle is one of the population, and there is one unless the population is empty.
-/

namespace Winners

/-- Every particle that a factory builds has a property. -/
def Factory.Yields {τ : Type} (factory : Factory τ) (P : τ → Prop) : Prop :=
  ∀ slot draws t draws', (factory slot).run draws = .ok (t, draws') → P t

/-- A factory that builds a particle whatever is drawn. -/
def Factory.Total {τ : Type} (factory : Factory τ) : Prop :=
  ∀ slot draws, ∃ made, (factory slot).run draws = .ok made

namespace Population

/-! ## Construction -/

section

variable {τ : Type} {P : τ → Prop} {factory : Factory τ}

theorem build_spec (h : factory.Yields P) {count : Nat} :
    ∀ {slot : Nat} {built particles : List τ} {draws draws' : Draws}, (∀ x ∈ built, P x) →
      (build factory slot built count).run draws = .ok (particles, draws') →
      (∀ x ∈ particles, P x) ∧ particles.length = built.length + count := by
  induction count with
  | zero =>
      intro slot built particles draws draws' hbuilt hrun
      cases hrun
      exact ⟨fun x hx => hbuilt x (List.mem_reverse.mp hx), List.length_reverse⟩
  | succ count ih =>
      intro slot built particles draws draws' hbuilt hrun
      obtain ⟨⟨x, rest⟩, hx, hrun⟩ := bind_eq_ok.mp hrun
      obtain ⟨hall, hlength⟩ := ih (List.forall_mem_cons.mpr ⟨h slot draws x rest hx, hbuilt⟩) hrun
      refine ⟨hall, ?_⟩
      rw [hlength, List.length_cons]
      omega

theorem create_spec (h : factory.Yields P) {n : Nat} {population : Population τ}
    {draws draws' : Draws} (hrun : (create n factory).run draws = .ok (population, draws')) :
    (∀ x ∈ population.particles, P x) ∧ population.particles.length = n ∧ 0 < n := by
  unfold create at hrun
  split at hrun
  · cases hrun
  · next hn =>
      obtain ⟨⟨particles, rest⟩, hbuild, hrun⟩ := bind_eq_ok.mp hrun
      cases hrun
      obtain ⟨hall, hlength⟩ := build_spec h (fun x hx => absurd hx List.not_mem_nil) hbuild
      exact ⟨hall, by simpa using hlength, Nat.pos_of_ne_zero hn⟩

theorem exists_build (h : factory.Total) {count : Nat} :
    ∀ (slot : Nat) (built : List τ) (draws : Draws),
      ∃ made, (build factory slot built count).run draws = .ok made := by
  induction count with
  | zero =>
      intro slot built draws
      exact ⟨_, rfl⟩
  | succ count ih =>
      intro slot built draws
      obtain ⟨⟨x, rest⟩, hx⟩ := h slot draws
      obtain ⟨made, hmade⟩ := ih (slot + 1) (x :: built) rest
      exact ⟨made, bind_eq_ok.mpr ⟨(x, rest), hx, hmade⟩⟩

theorem exists_create (h : factory.Total) {n : Nat} (hn : n ≠ 0) (draws : Draws) :
    ∃ made, (create n factory).run draws = .ok made := by
  obtain ⟨⟨particles, rest⟩, hbuild⟩ := exists_build h 0 [] draws
  unfold create
  rw [if_neg hn]
  exact ⟨_, bind_eq_ok.mpr ⟨_, hbuild, rfl⟩⟩

end

variable {τ μ ν π ω : Type} [Tracker τ μ ν] {P : τ → Prop}

/-! ## Mixing -/

theorem walkEach_kept {policy : Policy τ μ π} (h : policy.Keeps P)
    (onMutation : Nat → μ → τ → ω → ω) (steps : Nat) {walkers : List (τ × UInt64)} :
    ∀ {slot : Nat} {memory : π} {report : ω}, (∀ w ∈ walkers, P w.1) →
      ∀ x ∈ (walkEach policy onMutation steps slot walkers memory report).2.1, P x := by
  induction walkers with
  | nil =>
      intro slot memory report _ x hx
      exact absurd hx List.not_mem_nil
  | cons walker rest ih =>
      intro slot memory report hwalkers
      obtain ⟨hwalker, hrest⟩ := List.forall_mem_cons.mp hwalkers
      have hmix := h.mix (onMutation slot) steps
        (show P (Walk.mk walker.1 memory (.ofSeed (splitMix walker.2)) report).tracker from hwalker)
      rw [walkEach]
      dsimp only
      -- after a walk that fails the others have not set out
      split
      · next hresult =>
          rw [hresult] at hmix
          refine List.forall_mem_cons.mpr ⟨hmix, ?_⟩
          intro x hx
          obtain ⟨w, hw, rfl⟩ := List.mem_map.mp hx
          exact hrest w hw
      · next hresult =>
          rw [hresult] at hmix
          exact List.forall_mem_cons.mpr ⟨hmix, ih hrest⟩

/-- Mixing keeps what walk steps keep, also when a walk fails. -/
theorem mixAll_kept {policy : Policy τ μ π} (h : policy.Keeps P)
    (onMutation : Nat → μ → τ → ω → ω) (steps : Nat) {s : Mixing τ π ω}
    (hs : ∀ x ∈ s.population.particles, P x) :
    ∀ x ∈ (mixAll policy onMutation steps s).2.population.particles, P x := by
  apply walkEach_kept h
  intro w hw
  exact hs w.1 (List.of_mem_zip hw).1

theorem length_walkEach (policy : Policy τ μ π) (onMutation : Nat → μ → τ → ω → ω) (steps : Nat)
    {walkers : List (τ × UInt64)} : ∀ {slot : Nat} {memory : π} {report : ω},
      (walkEach policy onMutation steps slot walkers memory report).2.1.length =
        walkers.length := by
  induction walkers with
  | nil =>
      intro slot memory report
      rfl
  | cons walker rest ih =>
      intro slot memory report
      rw [walkEach]
      dsimp only
      split
      · rw [List.length_cons, List.length_map, List.length_cons]
      · rw [List.length_cons, ih, List.length_cons]

/-- Every particle gets a seed. -/
theorem map_fst_zip_seeds (population : Population τ) (draws : Draws) :
    (population.particles.zip (population.seeds.run draws).1).map Prod.fst =
      population.particles :=
  List.map_fst_zip (Sampler.length_mapM _ _ _).ge

/-- Mixing keeps the number of particles, also when a walk fails. -/
theorem length_mixAll (policy : Policy τ μ π) (onMutation : Nat → μ → τ → ω → ω) (steps : Nat)
    (s : Mixing τ π ω) :
    (mixAll policy onMutation steps s).2.population.particles.length =
      s.population.particles.length := by
  have hwalkers := congrArg List.length (map_fst_zip_seeds s.population s.draws)
  rw [List.length_map] at hwalkers
  exact (length_walkEach policy onMutation steps).trans hwalkers

/-! ## Selection -/

/-- The particles whose fitness is accepted. -/
def passing (keep : Binary64 → Bool) (population : Population τ) : List τ :=
  population.particles.filter fun x => keep (Tracker.fitness x)

theorem mem_passing {keep : Binary64 → Bool} {population : Population τ} {x : τ} :
    x ∈ population.passing keep ↔ x ∈ population.particles ∧ keep (Tracker.fitness x) = true :=
  List.mem_filter

theorem cull_of_none {keep : Binary64 → Bool} {population : Population τ}
    (h : population.passing keep = []) : population.cull keep = (.extinct, population) := by
  unfold passing at h
  simp only [cull, h, List.isEmpty_nil, if_true]

theorem cull_of_some {keep : Binary64 → Bool} {population : Population τ}
    (h : population.passing keep ≠ []) :
    population.cull keep =
      (.survived (population.passing keep).length, ⟨population.passing keep⟩) := by
  unfold cull
  exact if_neg fun hempty => h (List.isEmpty_iff.mp hempty)

/-- The places of the particles that are copied: for each copy one among the first `k`. -/
def donors (k : Nat) (pos : 0 < k) (copies : Nat) : Sampler (List (Fin k)) :=
  (List.replicate copies ()).mapM fun _ => Sampler.below k pos

theorem run_donors_succ {k : Nat} (pos : 0 < k) (copies : Nat) (draws : Draws) :
    (donors k pos (copies + 1)).run draws =
      (((Sampler.below k pos).run draws).1 ::
          ((donors k pos copies).run ((Sampler.below k pos).run draws).2).1,
        ((donors k pos copies).run ((Sampler.below k pos).run draws).2).2) :=
  Sampler.run_mapM_replicate_succ (Sampler.below k pos) copies draws

theorem length_donors {k : Nat} (pos : 0 < k) (copies : Nat) (draws : Draws) :
    ((donors k pos copies).run draws).1.length = copies := by
  rw [donors, Sampler.length_mapM, List.length_replicate]

omit [Tracker τ μ ν] in
/-- **Only particles from before are copied**, though the list is longer with every copy. -/
theorem run_appendCopies {k : Nat} (pos : 0 < k) (missing : Nat) :
    ∀ (particles : List τ) (h : k ≤ particles.length) (draws : Draws),
      (appendCopies k pos missing particles h).run draws =
        (particles ++ ((donors k pos missing).run draws).1.map fun donor =>
            particles.get (donor.castLE h),
          ((donors k pos missing).run draws).2) := by
  induction missing with
  | zero =>
      intro particles h draws
      exact Prod.ext (List.append_nil particles).symm rfl
  | succ missing ih =>
      intro particles h draws
      -- the place of a donor is in front of all copies
      have hfront : ∀ (x : τ) (h' : k ≤ (particles ++ [x]).length) (donor : Fin k),
          (particles ++ [x]).get (donor.castLE h') = particles.get (donor.castLE h) :=
        fun x _ donor => List.getElem_append_left (Nat.lt_of_lt_of_le donor.isLt h)
      rw [appendCopies, Sampler.run_bind, ih, run_donors_succ]
      simp only [hfront, List.append_assoc, List.singleton_append, List.map_cons]

/-- What filling up leads to, unless it is refused: the number of copies and the population. -/
def fillUp (target : Nat) (P : Population τ) : Except Error (Sampler (Nat × Population τ)) :=
  if h : 0 < P.particles.length then
    if target < P.particles.length then
      .error (.invalid (.shrinking P.particles.length target))
    else
      let missing := target - P.particles.length
      .ok do
        let copied ← donors P.particles.length h missing
        return (missing, ⟨P.particles ++ copied.map P.particles.get⟩)
  else .error .emptyPopulation

/-- The population that is filled up, without the number of copies. -/
def replenish (target : Nat) (P : Population τ) : Except Error (Sampler (Population τ)) :=
  (P.fillUp target).map fun filling => do return (← filling).2

omit [Tracker τ μ ν] in
/-- Filling up that is refused changes neither the population nor the draws. -/
theorem refill_of_error {target : Nat} {population : Population τ} {e : Error}
    (h : population.fillUp target = .error e) (draws : Draws) :
    population.refill target draws = (.error e, population, draws) := by
  unfold fillUp at h
  unfold refill
  split at h
  · next hpos =>
      rw [dif_pos hpos]
      split at h
      · next hlt =>
          rw [if_pos hlt]
          cases h
          rfl
      · cases h
  · next hempty =>
      rw [dif_neg hempty]
      cases h
      rfl

omit [Tracker τ μ ν] in
theorem refill_of_ok {target : Nat} {population : Population τ}
    {filling : Sampler (Nat × Population τ)} (h : population.fillUp target = .ok filling)
    (draws : Draws) : population.refill target draws =
      (.ok (filling.run draws).1.1, (filling.run draws).1.2, (filling.run draws).2) := by
  unfold fillUp at h
  unfold refill
  split at h
  · next hpos =>
      rw [dif_pos hpos]
      split at h
      · cases h
      · next hge =>
          rw [if_neg hge]
          cases h
          simp only [run_appendCopies]
          rfl
  · cases h

omit [Tracker τ μ ν] in
theorem refill_of_replenish_error {target : Nat} {population : Population τ} {e : Error}
    (h : population.replenish target = .error e) (draws : Draws) :
    population.refill target draws = (.error e, population, draws) :=
  refill_of_error (map_eq_error.mp h) draws

omit [Tracker τ μ ν] in
theorem refill_of_replenish_ok {target : Nat} {population : Population τ}
    {filling : Sampler (Population τ)} (h : population.replenish target = .ok filling)
    (draws : Draws) : ∃ copies, population.refill target draws =
      (.ok copies, (filling.run draws).1, (filling.run draws).2) := by
  obtain ⟨counted, hcounted, rfl⟩ := map_eq_ok.mp h
  exact ⟨_, refill_of_ok hcounted draws⟩

omit [Tracker τ μ ν] in
/-- Filling up works for a population that is neither empty nor too large. -/
theorem exists_fillUp {target : Nat} {population : Population τ}
    (pos : 0 < population.particles.length) (hle : population.particles.length ≤ target) :
    ∃ filling, population.fillUp target = .ok filling ∧ ∀ draws,
      let drawn := (donors population.particles.length pos
        (target - population.particles.length)).run draws
      filling.run draws = ((target - population.particles.length,
        ⟨population.particles ++ drawn.1.map population.particles.get⟩), drawn.2) := by
  rw [fillUp, dif_pos pos, if_neg (Nat.not_lt.mpr hle)]
  exact ⟨_, rfl, fun _ => rfl⟩

omit [Tracker τ μ ν] in
theorem fillUp_of_nil {target : Nat} {population : Population τ}
    (h : population.particles = []) : population.fillUp target = .error .emptyPopulation := by
  rw [fillUp, dif_neg (by rw [h]; exact Nat.lt_irrefl 0)]

omit [Tracker τ μ ν] in
theorem fillUp_of_lt {target : Nat} {population : Population τ}
    (h : target < population.particles.length) :
    population.fillUp target =
      .error (.invalid (.shrinking population.particles.length target)) := by
  rw [fillUp, dif_pos (Nat.zero_lt_of_lt h), if_pos h]

omit [Tracker τ μ ν] in
/-- Filling up that works leaves the particles in front, and copies of them up to the target. -/
theorem replenish_eq_ok {target : Nat} {population : Population τ}
    {filling : Sampler (Population τ)} (h : population.replenish target = .ok filling) :
    population.particles.length ≤ target ∧ ∃ pos, ∀ draws,
      (filling.run draws).1.particles = population.particles ++
        ((donors population.particles.length pos
          (target - population.particles.length)).run draws).1.map population.particles.get := by
  obtain ⟨counted, hcounted, rfl⟩ := map_eq_ok.mp h
  rcases Nat.eq_zero_or_pos population.particles.length with hzero | hpos
  · rw [fillUp_of_nil (List.length_eq_zero_iff.mp hzero)] at hcounted
    cases hcounted
  · rcases Nat.lt_or_ge target population.particles.length with hlt | hle
    · rw [fillUp_of_lt hlt] at hcounted
      cases hcounted
    · obtain ⟨filling, hfilling, hrun⟩ := exists_fillUp hpos hle
      cases hfilling.symm.trans hcounted
      refine ⟨hle, hpos, ?_⟩
      intro draws
      rw [Sampler.run_bind, Sampler.run_pure, hrun]

omit [Tracker τ μ ν] in
/-- Filling up keeps the particles in front and adds copies of them. -/
theorem replenish_spec {target : Nat} {population : Population τ}
    {filling : Sampler (Population τ)} (h : population.replenish target = .ok filling)
    (draws : Draws) :
    ∃ copies, (filling.run draws).1.particles = population.particles ++ copies ∧
      ∀ x ∈ copies, x ∈ population.particles := by
  obtain ⟨-, pos, hrun⟩ := replenish_eq_ok h
  refine ⟨_, hrun draws, ?_⟩
  intro x hx
  obtain ⟨donor, -, rfl⟩ := List.mem_map.mp hx
  exact List.get_mem population.particles donor

omit [Tracker τ μ ν] in
theorem mem_of_mem_replenish {target : Nat} {population : Population τ}
    {filling : Sampler (Population τ)} (h : population.replenish target = .ok filling)
    {draws : Draws} {x : τ} (hx : x ∈ (filling.run draws).1.particles) :
    x ∈ population.particles := by
  obtain ⟨copies, hparticles, hcopies⟩ := replenish_spec h draws
  rw [hparticles] at hx
  rcases List.mem_append.mp hx with hx | hx
  · exact hx
  · exact hcopies x hx

omit [Tracker τ μ ν] in
theorem exists_replenish {target : Nat} {population : Population τ}
    (hsome : population.particles ≠ []) (hle : population.particles.length ≤ target) :
    ∃ filling, population.replenish target = .ok filling := by
  obtain ⟨filling, hfilling, -⟩ := exists_fillUp (List.length_pos_iff.mpr hsome) hle
  exact ⟨_, map_eq_ok.mpr ⟨filling, hfilling, rfl⟩⟩

omit [Tracker τ μ ν] in
/-- Filling up ends with as many particles as there are to be. -/
theorem length_replenish {target : Nat} {population : Population τ}
    {filling : Sampler (Population τ)} (h : population.replenish target = .ok filling)
    (draws : Draws) : (filling.run draws).1.particles.length = target := by
  obtain ⟨hle, pos, hrun⟩ := replenish_eq_ok h
  rw [hrun, List.length_append, List.length_map, length_donors]
  omega

/-! ## The best particle -/

omit [Tracker τ μ ν] in
/-- A fold that at each entry keeps what it has or takes the entry ends with an entry. -/
theorem foldl_choice {choose : Option τ → τ → Option τ}
    (hchoose : ∀ b y, choose (some b) y = some b ∨ choose (some b) y = some y) (x : τ)
    (xs : List τ) : ∃ b ∈ x :: xs, xs.foldl choose (some x) = some b := by
  induction xs generalizing x with
  | nil => exact ⟨x, List.mem_cons_self, rfl⟩
  | cons y ys ih =>
      rw [List.foldl_cons]
      rcases hchoose x y with h | h
      · obtain ⟨b, hb, hfold⟩ := ih x
        refine ⟨b, ?_, by rw [h, hfold]⟩
        rcases List.mem_cons.mp hb with rfl | hb
        · exact List.mem_cons_self
        · exact List.mem_cons_of_mem x (List.mem_cons_of_mem y hb)
      · obtain ⟨b, hb, hfold⟩ := ih y
        exact ⟨b, List.mem_cons_of_mem x hb, by rw [h, hfold]⟩

/-- A population that is not empty has a best particle, which is one of its particles. -/
theorem exists_best (d : Direction) {population : Population τ} (h : population.particles ≠ []) :
    ∃ b ∈ population.particles, population.best d = some b := by
  obtain ⟨particles⟩ := population
  cases particles with
  | nil => exact absurd rfl h
  | cons x xs =>
      apply foldl_choice
      intro b y
      dsimp only
      split
      · exact Or.inr rfl
      · exact Or.inl rfl

theorem mem_of_best {d : Direction} {population : Population τ} {b : τ}
    (h : population.best d = some b) : b ∈ population.particles := by
  have hne : population.particles ≠ [] := by
    intro hnil
    rw [best, hnil] at h
    cases h
  obtain ⟨b', hb', hbest⟩ := exists_best d hne
  rw [h] at hbest
  cases hbest
  exact hb'

end Population

end Winners

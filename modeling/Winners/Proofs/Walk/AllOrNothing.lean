import Winners.Proofs.Walk.IntoBounds
import Winners.Proofs.Walk.Recoloring

set_option autoImplicit false

/-! # Walks that make every step or none

Whether a shipped walk other than that between bounds can make a step depends on something that its
steps do not change: the number of elements, the number of colours, the size of a subset. So every
step makes the same number of moves (`Policy.Paces`), and whether that is none can be told at the
start of the walk (`shipped_walks_are_all_or_nothing`). No step is wasted either: a bit is flipped,
a vertex gets another colour, a member is exchanged for a vertex that is none.
-/

namespace Winners

/-! ## Changes of an assignment -/

/-- One value is replaced by a different one. -/
def ChangesOne {ν : Type} (before after : List ν) : Prop :=
  ∃ i old new, before[i]? = some old ∧ new ≠ old ∧ after = before.set i new

/-- One member leaves and one vertex that is no member enters. -/
def ChangesPlaces (before after : List Bool) : Prop :=
  ∃ leaves enters : Nat, before[leaves]? = some true ∧ before[enters]? = some false ∧
    after = (before.set leaves false).set enters true

theorem changesOne_flipAt {n : Nat} (bits : Vector Bool n) (i : Fin n) :
    ChangesOne bits.toList (Patch.flipAt bits i).toList := by
  refine ⟨i, bits.get i, !bits.get i, Patch.getElem?_toList bits i, Bool.not_ne_self _, ?_⟩
  rw [Patch.flipAt_val, Vector.toList_set]

section

variable {τ μ ν π ω : Type} [Tracker τ μ ν] {policy : Policy τ μ π} {P : τ → Prop}
  {pace moves : Nat} {changes : List ν → List ν → Prop} {onMutation : μ → τ → ω → ω}

/-! ## Steps -/

/-- From the trackers with a property, every step makes the same number of moves and leads to one of
them again. Together its moves change the assignment in a certain way. -/
structure Policy.Paces (policy : Policy τ μ π) (P : τ → Prop) (pace : Nat)
    (changes : List ν → List ν → Prop) : Prop where
  legal : policy.Legal
  length_plan : ∀ {t} memory draws, P t → ((policy.plan t memory).run draws).1.1.length = pace
  kept : ∀ {t} memory draws, P t → P (Tracker.replay t ((policy.plan t memory).run draws).1.1)
  changes : ∀ {t} memory draws, P t → changes (Tracker.assignment t)
    (Tracker.assignment (Tracker.replay t ((policy.plan t memory).run draws).1.1))

/-- A policy that plans nothing for a tracker leaves it as it is. -/
theorem Policy.Legal.paces_of_nothing (hlegal : policy.Legal) {t : τ}
    (h : ∀ memory draws, ((policy.plan t memory).run draws).1.1 = []) :
    policy.Paces (· = t) 0 fun _ _ => True where
  legal := hlegal
  length_plan := by
    rintro _ memory draws rfl
    rw [h, List.length_nil]
  kept := by
    rintro _ memory draws rfl
    rw [h, Tracker.replay_nil]
  changes _ _ _ := trivial

namespace Walk

theorem exists_step_of_paces (h : policy.Paces P pace changes) (onMutation : μ → τ → ω → ω)
    {walk : Walk τ π ω} (hwalk : P walk.tracker) :
    ∃ next, walk.step policy onMutation = (.ok (pace != 0), next) ∧ P next.tracker ∧
      changes (Tracker.assignment walk.tracker) (Tracker.assignment next.tracker) := by
  have hmoved : (!(walk.planned policy).isEmpty) = (pace != 0) := by
    rw [← h.length_plan walk.memory walk.draws hwalk, planned]
    cases ((policy.plan walk.tracker walk.memory).run walk.draws).1.1 <;> rfl
  obtain ⟨next, hstep, hnext⟩ := step_of_legal h.legal onMutation walk
  rw [hmoved] at hstep
  refine ⟨next, hstep, ?_, ?_⟩
  · rw [hnext]
    exact h.kept _ _ hwalk
  · rw [hnext]
    exact h.changes _ _ hwalk

/-! ## Whole walks -/

/-- The steps that count are all or none. -/
theorem exists_mix_of_paces (h : policy.Paces P pace changes) (onMutation : μ → τ → ω → ω)
    {walk : Walk τ π ω} (hwalk : P walk.tracker) (steps : Nat) :
    ∃ last, walk.mix policy onMutation steps = (.ok (if pace = 0 then 0 else steps), last) ∧
      P last.tracker := by
  induction steps with
  | zero => exact ⟨walk, by rw [ite_self]; rfl, hwalk⟩
  | succ steps ih =>
      obtain ⟨last, hmix, hlast⟩ := ih
      obtain ⟨next, hstep, hnext, -⟩ := exists_step_of_paces h onMutation hlast
      refine ⟨next, (mix_concat hmix hstep).trans ?_, hnext⟩
      by_cases hpace : pace = 0 <;> simp [hpace]

/-- The journal has the moves of all steps. -/
theorem length_journal_of_paces (h : policy.Paces P pace changes) {walk : Walk τ π ω}
    (hwalk : P walk.tracker) (steps : Nat) : (walk.journal policy steps).length = pace * steps := by
  induction steps with
  | zero => rfl
  | succ steps ih =>
      have hrecorded : P (walk.recorded : Walk τ π (List (μ × τ))).tracker := hwalk
      obtain ⟨last, hmix, hlast⟩ := exists_mix_of_paces h record hrecorded steps
      obtain ⟨next, hstep, -⟩ := exists_step_of_paces h record hlast
      have hplanned : (last.planned policy).length = pace := h.length_plan _ _ hlast
      rw [journal, hmix] at ih
      rw [journal, mix_concat hmix hstep, length_report_of_step hstep, ih, hplanned, Nat.mul_succ]

/-- **A walk that makes every step or none**, of `moves` moves each. -/
structure AllOrNothing (policy : Policy τ μ π) (onMutation : μ → τ → ω → ω) (able : Prop)
    (moves : Nat) (changes : List ν → List ν → Prop) (walk : Walk τ π ω) : Prop where
  /-- If the walk is able to move, every step counts. -/
  all : able → ∀ steps, (walk.mix policy onMutation steps).1 = .ok steps
  /-- Otherwise no step counts, and the tracker stays as it is. -/
  nothing : ¬able → ∀ steps, (walk.mix policy onMutation steps).1 = .ok 0 ∧
    (walk.mix policy onMutation steps).2.tracker = walk.tracker
  /-- The observer is told what the journal says, ... -/
  told : ∀ steps, (walk.mix policy onMutation steps).2.report =
    retell onMutation (walk.journal policy steps) walk.report
  /-- ... which is as many moves for each step that counts. -/
  reports : ∀ steps made, (walk.mix policy onMutation steps).1 = .ok made →
    (walk.journal policy steps).length = moves * made
  /-- The next step goes on from the steps before it, and changes the assignment if it counts. -/
  each : ∀ i, ∃ moved, (walk.mix policy onMutation i).2.step policy onMutation =
      (.ok moved, (walk.mix policy onMutation (i + 1)).2) ∧
    (moved = true → changes (Tracker.assignment (walk.mix policy onMutation i).2.tracker)
      (Tracker.assignment (walk.mix policy onMutation (i + 1)).2.tracker))

theorem allOrNothing {able : Prop} (onMutation : μ → τ → ω → ω) {walk : Walk τ π ω}
    (hmoves : moves ≠ 0) (hable : able → policy.Paces P moves changes ∧ P walk.tracker)
    (hunable : ¬able → policy.Paces (· = walk.tracker) 0 fun _ _ => True) :
    walk.AllOrNothing policy onMutation able moves changes where
  all := by
    intro h steps
    obtain ⟨hpaces, hwalk⟩ := hable h
    obtain ⟨last, hmix, -⟩ := exists_mix_of_paces hpaces onMutation hwalk steps
    rw [hmix, if_neg hmoves]
  nothing := by
    intro h steps
    obtain ⟨last, hmix, hlast⟩ := exists_mix_of_paces (hunable h) onMutation rfl steps
    rw [hmix, if_pos rfl]
    exact ⟨rfl, hlast⟩
  told := by
    intro steps
    rw [mix_eq_retold]
    rfl
  reports := by
    intro steps made hmade
    by_cases h : able
    · obtain ⟨hpaces, hwalk⟩ := hable h
      obtain ⟨last, hmix, -⟩ := exists_mix_of_paces hpaces onMutation hwalk steps
      rw [hmix, if_neg hmoves] at hmade
      cases hmade
      exact length_journal_of_paces hpaces hwalk steps
    · obtain ⟨last, hmix, -⟩ := exists_mix_of_paces (hunable h) onMutation rfl steps
      rw [hmix, if_pos rfl] at hmade
      cases hmade
      rw [length_journal_of_paces (hunable h) rfl, Nat.zero_mul, Nat.mul_zero]
  each := by
    intro i
    by_cases h : able
    · obtain ⟨hpaces, hwalk⟩ := hable h
      obtain ⟨last, hmix, hlast⟩ := exists_mix_of_paces hpaces onMutation hwalk i
      obtain ⟨next, hstep, -, hchanges⟩ := exists_step_of_paces hpaces onMutation hlast
      rw [hmix, mix_concat hmix hstep]
      exact ⟨_, hstep, fun _ => hchanges⟩
    · obtain ⟨last, hmix, hlast⟩ := exists_mix_of_paces (hunable h) onMutation rfl i
      obtain ⟨next, hstep, -⟩ := exists_step_of_paces (hunable h) onMutation hlast
      rw [hmix, mix_concat hmix hstep]
      refine ⟨_, hstep, fun hmoved => ?_⟩
      cases hmoved

end Walk

end

/-! ## Shipped policies -/

namespace Policy

section

variable {τ μ ν π : Type} [Tracker τ μ ν] {policy : Policy τ μ π} {P : τ → Prop}
  {changes : List ν → List ν → Prop}

/-- A policy that plans one move for each step. -/
theorem Legal.paces_one (hlegal : policy.Legal)
    (h : ∀ {t} memory draws, P t → ∃ move undo t',
      ((policy.plan t memory).run draws).1.1 = [move] ∧ Tracker.mutate t move = .ok (undo, t') ∧
      P t' ∧ changes (Tracker.assignment t) (Tracker.assignment t')) :
    policy.Paces P 1 changes := by
  have hplan : ∀ {t} memory draws, P t → ((policy.plan t memory).run draws).1.1.length = 1 ∧
      P (Tracker.replay t ((policy.plan t memory).run draws).1.1) ∧
      changes (Tracker.assignment t)
        (Tracker.assignment (Tracker.replay t ((policy.plan t memory).run draws).1.1)) := by
    intro t memory draws ht
    obtain ⟨move, undo, t', hmove, hmutate, hkept, hchanges⟩ := h memory draws ht
    rw [hmove, Tracker.replay_cons, Tracker.replay_nil, Tracker.attempt_of_ok hmutate]
    exact ⟨rfl, hkept, hchanges⟩
  exact ⟨hlegal, fun memory draws ht => (hplan memory draws ht).1,
    fun memory draws ht => (hplan memory draws ht).2.1,
    fun memory draws ht => (hplan memory draws ht).2.2⟩

end

/-! ### Flips of random elements -/

section

variable {τ ν π ω : Type} [Tracker τ Nat ν]

theorem plan_uniformFlip {t : τ} (h : 0 < Tracker.size t) (memory : π) (draws : Draws) :
    ∃ i < Tracker.size t, ((uniformFlip.plan t memory).run draws).1.1 = [i] := by
  have hsome : ∃ i : Fin (Tracker.size t), ((randomElement (Tracker.size t)).run draws).1 =
      some i.val := by
    unfold randomElement
    rw [dif_pos h]
    exact ⟨_, rfl⟩
  obtain ⟨i, hi⟩ := hsome
  exact ⟨i, i.isLt, congrArg Option.toList hi⟩

theorem plan_uniformFlip_of_empty {t : τ} (h : Tracker.size t = 0) (memory : π) (draws : Draws) :
    ((uniformFlip.plan t memory).run draws).1.1 = [] := by
  have hnone : ((randomElement (Tracker.size t)).run draws).1 = none := by
    rw [h]
    rfl
  exact congrArg Option.toList hnone

/-- Flips go on as long as there is an element. -/
theorem allOrNothing_uniformFlip {n : Nat} (hsize : ∀ t : τ, Tracker.size t = n)
    (hflip : ∀ (t : τ) (i : Fin n), ∃ undo t', Tracker.mutate t i.val = .ok (undo, t') ∧
      ChangesOne (Tracker.assignment t) (Tracker.assignment t'))
    (onMutation : Nat → τ → ω → ω) (walk : Walk τ π ω) :
    walk.AllOrNothing uniformFlip onMutation (0 < n) 1 ChangesOne := by
  have hlegal : (uniformFlip : Policy τ Nat π).Legal := by
    apply legal_uniformFlip
    intro t i hi
    obtain ⟨undo, t', hmutate, -⟩ := hflip t ⟨i, hsize t ▸ hi⟩
    exact ⟨undo, t', hmutate⟩
  refine Walk.allOrNothing (P := fun _ => True) onMutation Nat.one_ne_zero ?_ ?_
  · intro hn
    refine ⟨hlegal.paces_one ?_, trivial⟩
    intro t memory draws _
    obtain ⟨i, hi, hplan⟩ := plan_uniformFlip ((hsize t).symm ▸ hn) memory draws
    obtain ⟨undo, t', hmutate, hchanges⟩ := hflip t ⟨i, hsize t ▸ hi⟩
    exact ⟨i, undo, t', hplan, hmutate, trivial, hchanges⟩
  · intro hn
    apply hlegal.paces_of_nothing
    exact plan_uniformFlip_of_empty ((hsize _).trans (Nat.eq_zero_of_not_pos hn))

end

variable {n : Nat} {G : Graph n} {π ω : Type}

/-! ### Random recolourings -/

theorem plan_randomRecolor {C : Coloring G} (h : 0 < n ∧ 0 < C.k - 1) (memory : π)
    (draws : Draws) : ∃ node draw,
      ((randomRecolor.plan C memory).run draws).1.1 = [recoloring C node draw] := by
  simp only [randomRecolor, ofSampler, ofPropose, dif_pos h]
  exact ⟨_, _, rfl⟩

theorem plan_randomRecolor_of_not {C : Coloring G} (h : ¬(0 < n ∧ 0 < C.k - 1)) (memory : π)
    (draws : Draws) : ((randomRecolor.plan C memory).run draws).1.1 = [] := by
  simp only [randomRecolor, ofSampler, ofPropose, dif_neg h]
  rfl

/-- A recolouring that draws stand for gives one vertex another colour. -/
theorem changesOne_recoloring (C : Coloring G) (node : Fin n) (draw : Fin (C.k - 1)) :
    ∃ undo C', Tracker.mutate C (recoloring C node draw) = .ok (undo, C') ∧ C'.k = C.k ∧
      ChangesOne (Tracker.assignment C) (Tracker.assignment C') := by
  refine ⟨_, _, Coloring.mutate_of_lt C node.isLt (otherColor_lt draw.isLt),
    Coloring.recolor_k C _ _, ?_⟩
  rw [Coloring.assignment_recolor]
  refine ⟨node, C.colors.get node, _, ?_, otherColor_ne (C.colors.get node) draw, rfl⟩
  show (C.colors.toList.map Fin.val)[node.val]? = _
  rw [List.getElem?_map, Patch.getElem?_toList]
  rfl

/-- Random recolourings go on as long as there are a vertex and a second colour. -/
theorem allOrNothing_randomRecolor (onMutation : Recolor → Coloring G → ω → ω)
    (walk : Walk (Coloring G) π ω) :
    walk.AllOrNothing randomRecolor onMutation (0 < n ∧ 2 ≤ walk.tracker.k) 1 ChangesOne := by
  refine Walk.allOrNothing (P := fun C => 2 ≤ C.k) onMutation Nat.one_ne_zero ?_ ?_
  · rintro ⟨hn, hk⟩
    refine ⟨legal_randomRecolor.paces_one ?_, hk⟩
    intro C memory draws hk
    obtain ⟨node, draw, hplan⟩ := plan_randomRecolor ⟨hn, Nat.sub_pos_of_lt hk⟩ memory draws
    obtain ⟨undo, C', hmutate, hcolors, hchanges⟩ := changesOne_recoloring C node draw
    exact ⟨_, undo, C', hplan, hmutate, hk.trans hcolors.ge, hchanges⟩
  · intro h
    apply legal_randomRecolor.paces_of_nothing
    apply plan_randomRecolor_of_not
    omega

/-! ### Exchanges of random vertices -/

theorem exists_plan_swapWalk {S : VertexSubset G} (hS : S.Arranged) (hpos : 0 < S.size)
    (hlt : S.size < n) (memory : π) (draws : Draws) :
    ∃ add remove : Fin n, S.member.get add = false ∧ S.member.get remove = true ∧
      ((swapWalk.plan S memory).run draws).1.1 = [remove.val, add.val] := by
  obtain ⟨add, hadd⟩ := hS.exists_randomNonMember hlt draws
  obtain ⟨remove, hremove⟩ :=
    VertexSubset.Arranged.exists_randomMember hpos (S.randomNonMember.run draws).2
  refine ⟨add, remove, hS.not_member_of_random hadd, hS.member_of_random hremove, ?_⟩
  unfold swapWalk
  dsimp only
  rw [Sampler.run_bind, Sampler.run_bind, hadd, hremove]
  rfl

/-- Without a member, or without another vertex, nothing is planned. -/
theorem plan_swapWalk_of_not {S : VertexSubset G} (hS : S.Arranged)
    (h : ¬(0 < S.size ∧ S.size < n)) (memory : π) (draws : Draws) :
    ((swapWalk.plan S memory).run draws).1.1 = [] := by
  rcases plan_swapWalk hS memory draws with hplan | ⟨add, remove, hadd, hremove, -⟩
  · exact hplan
  · exact absurd ⟨hS.size_pos hremove, hS.size_lt hadd⟩ h

theorem changesPlaces_replaced {S : VertexSubset G} {add remove : Fin n}
    (hadd : S.member.get add = false) (hremove : S.member.get remove = true) :
    ChangesPlaces (Tracker.assignment S) (Tracker.assignment ((S.toggle remove).toggle add)) := by
  have hleft := VertexSubset.not_member_of_left hadd hremove
  refine ⟨remove, add, ?_, ?_, ?_⟩
  · exact (Patch.getElem?_toList S.member remove).trans (congrArg some hremove)
  · exact (Patch.getElem?_toList S.member add).trans (congrArg some hadd)
  · show ((S.toggle remove).toggle add).member.toList = _
    rw [VertexSubset.toggle_member, Patch.flipAt_val, hleft, VertexSubset.toggle_member,
      Patch.flipAt_val, hremove, Vector.toList_set, Vector.toList_set]
    rfl

/-- The exchanges go on as long as there are members and other vertices. -/
theorem allOrNothing_swapWalk (onMutation : Nat → VertexSubset G → ω → ω)
    {walk : Walk (VertexSubset G) π ω} (hwalk : walk.tracker.Arranged) :
    walk.AllOrNothing swapWalk onMutation (0 < walk.tracker.size ∧ walk.tracker.size < n) 2
      ChangesPlaces := by
  refine Walk.allOrNothing (P := fun S => S.Arranged ∧ S.size = walk.tracker.size) onMutation
    (Nat.succ_ne_zero 1) ?_ ?_
  · rintro ⟨hpos, hlt⟩
    have hplan : ∀ {S : VertexSubset G} (memory : π) draws,
        S.Arranged ∧ S.size = walk.tracker.size → ∃ add remove : Fin n,
          S.member.get add = false ∧ S.member.get remove = true ∧
          ((swapWalk.plan S memory).run draws).1.1 = [remove.val, add.val] := by
      rintro S memory draws ⟨hS, hsize⟩
      exact exists_plan_swapWalk hS (hsize ▸ hpos) (hsize ▸ hlt) memory draws
    refine ⟨⟨legal_swapWalk, ?_, ?_, ?_⟩, hwalk, rfl⟩
    · intro S memory draws hS
      obtain ⟨add, remove, -, -, hmoves⟩ := hplan memory draws hS
      rw [hmoves]
      rfl
    · intro S memory draws hS
      obtain ⟨add, remove, hadd, hremove, hmoves⟩ := hplan memory draws hS
      rw [hmoves, VertexSubset.replay_pair]
      exact ⟨VertexSubset.sides_toggle (VertexSubset.sides_toggle hS.1 remove) add,
        (VertexSubset.size_replaced hS.1 hadd hremove).trans hS.2⟩
    · intro S memory draws hS
      obtain ⟨add, remove, hadd, hremove, hmoves⟩ := hplan memory draws hS
      rw [hmoves, VertexSubset.replay_pair]
      exact changesPlaces_replaced hadd hremove
  · intro h
    exact legal_swapWalk.paces_of_nothing (plan_swapWalk_of_not hwalk h)

end Policy

/-! ## Main statement -/

/-- **The shipped walks of a fixed pace make every step or none**, whatever is drawn. Flips go on if
there is an element, recolourings if there are a vertex and a second colour, exchanges if there
are a member and a vertex that is none; otherwise the tracker stays as it is. A step that counts
is a single move that gives one element another value, or for exchanges two moves that let one
member leave and one other vertex enter. -/
theorem shipped_walks_are_all_or_nothing {π ω : Type} :
    (∀ {n : Nat} {G : Graph n} (onMutation : Nat → VertexSubset G → ω → ω)
      (walk : Walk (VertexSubset G) π ω),
      walk.AllOrNothing .uniformFlip onMutation (0 < n) 1 ChangesOne) ∧
    (∀ {n m : Nat} {C : Code n m} (onMutation : Nat → Message C → ω → ω)
      (walk : Walk (Message C) π ω),
      walk.AllOrNothing .uniformFlip onMutation (0 < n) 1 ChangesOne) ∧
    (∀ {n : Nat} {G : Graph n} (onMutation : Recolor → Coloring G → ω → ω)
      (walk : Walk (Coloring G) π ω),
      walk.AllOrNothing .randomRecolor onMutation (0 < n ∧ 2 ≤ walk.tracker.k) 1 ChangesOne) ∧
    (∀ {n : Nat} {G : Graph n} (onMutation : Nat → VertexSubset G → ω → ω)
      (walk : Walk (VertexSubset G) π ω), walk.tracker.Evolved →
      walk.AllOrNothing .swapWalk onMutation (0 < walk.tracker.size ∧ walk.tracker.size < n) 2
        ChangesPlaces) := by
  refine ⟨?_, ?_, ?_, ?_⟩
  · intro n G onMutation walk
    apply Policy.allOrNothing_uniformFlip (fun _ => rfl)
    intro S v
    refine ⟨_, _, VertexSubset.mutate_of_lt S v.isLt, ?_⟩
    show ChangesOne S.member.toList (S.toggle v).member.toList
    rw [VertexSubset.toggle_member]
    exact changesOne_flipAt S.member v
  · intro n m C onMutation walk
    apply Policy.allOrNothing_uniformFlip (fun _ => rfl)
    intro x b
    refine ⟨_, _, Message.mutate_of_lt x b.isLt, ?_⟩
    show ChangesOne x.bits.toList (x.flip b).bits.toList
    rw [Message.flip_bits]
    exact changesOne_flipAt x.bits b
  · intro n G onMutation walk
    exact Policy.allOrNothing_randomRecolor onMutation walk
  · intro n G onMutation walk hwalk
    exact Policy.allOrNothing_swapWalk onMutation hwalk.arranged

/-- Two of the four vertices of a path are exchanged for others in each of five steps. A path in its
only colour cannot be recoloured. -/
theorem shipped_walks_are_all_or_nothing_small :
    ∃ C, Coloring.uniform (Graph.path 3) 1 = .ok C ∧ pathStart.Evolved ∧ ∀ draws : Draws,
      let exchanges : Walk (VertexSubset (Graph.path 4)) Unit Unit := ⟨pathStart, (), draws, ()⟩
      let recolorings : Walk (Coloring (Graph.path 3)) Unit Unit := ⟨C, (), draws, ()⟩
      (exchanges.mix .swapWalk (fun _ _ report => report) 5).1 = .ok 5 ∧
      (exchanges.journal .swapWalk 5).length = 10 ∧
      (recolorings.mix .randomRecolor (fun _ _ report => report) 5).1 = .ok 0 ∧
      (recolorings.mix .randomRecolor (fun _ _ report => report) 5).2.tracker = C := by
  have hlist : VertexSubset.ofList (Graph.path 4) [0, 1] = .ok pathStart := by decide +kernel
  have hevolved : pathStart.Evolved := .fresh (.ofList hlist)
  have hsize : 0 < pathStart.size ∧ pathStart.size < 4 := by decide +kernel
  refine ⟨_, rfl, hevolved, ?_⟩
  intro draws exchanges recolorings
  obtain ⟨-, -, hrecolorings, hexchanges⟩ :=
    shipped_walks_are_all_or_nothing (π := Unit) (ω := Unit)
  have hmoves := hexchanges (fun _ _ report => report) exchanges hevolved
  have hrests := hrecolorings (fun _ _ report => report) recolorings
  have hcount := hmoves.all hsize 5
  have honly : ¬(0 < 3 ∧ 2 ≤ recolorings.tracker.k) := fun h => absurd h.2 (show ¬2 ≤ 1 by decide)
  exact ⟨hcount, hmoves.reports 5 5 hcount, hrests.nothing honly 5⟩

end Winners

import Winners.Proofs.Tracker.Undo
import Winners.Proofs.Walk.Oblivious
import Winners.Proofs.Walk.Relay

set_option autoImplicit false

/-! # The journal of a walk

A walk tells whoever watches of every move that it has made, together with the tracker after it.
`Walk.journal` writes these reports down. What any observer is told can be read from the journal
(`mix_eq_retold`), so the statements below are about the journal and hold for every observer.

A journal is reproduced by making its moves on a copy of the tracker that the walk started from
(`Reproduced`): all of them succeed, and the copy is at every entry what the entry says. This is
kept by every move that is reported (`Reproduced.record`), and a move that is refused is not
reported and changes nothing. So it holds at whatever move a walk is cut off.
-/

namespace Winners

variable {τ μ ν π ω : Type} [Tracker τ μ ν]

/-! ## Journals -/

/-- Writes a report at the end of a journal. -/
def record (move : μ) (t : τ) (journal : List (μ × τ)) : List (μ × τ) := journal ++ [(move, t)]

/-- What an observer makes of the entries of a journal. -/
def retell (onMutation : μ → τ → ω → ω) (journal : List (μ × τ)) (report : ω) : ω :=
  journal.foldl (fun report entry => onMutation entry.1 entry.2 report) report

theorem retell_record (onMutation : μ → τ → ω → ω) (move : μ) (t : τ) (journal : List (μ × τ))
    (report : ω) : retell onMutation (record move t journal) report =
      onMutation move t (retell onMutation journal report) := by
  simp [retell, record]

/-- What any observer is told can be read from the journal. -/
theorem relays_retell (onMutation : μ → τ → ω → ω) (report : ω) :
    Relays (retell onMutation · report) record onMutation :=
  fun move t journal => retell_record onMutation move t journal report

theorem moves_record (move : μ) (t : τ) (journal : List (μ × τ)) :
    (record move t journal).map Prod.fst = journal.map Prod.fst ++ [move] := by
  simp [record]

/-- A journal whose moves lead a copy of `t` to `last`, and past the tracker of each entry. -/
structure Reproduced (t : τ) (journal : List (μ × τ)) (last : τ) : Prop where
  all : ∃ undos, Tracker.mutateAll t (journal.map Prod.fst) = .ok (undos, last)
  each : ∀ j move t', journal[j]? = some (move, t') →
    ∃ undos, Tracker.mutateAll t ((journal.take (j + 1)).map Prod.fst) = .ok (undos, t')

namespace Reproduced

theorem nil (t : τ) : Reproduced t ([] : List (μ × τ)) t where
  all := ⟨[], rfl⟩
  each := by
    intro j move t' hj
    simp at hj

/-- **One move** that succeeds and is reported. -/
theorem record {t last next : τ} {journal : List (μ × τ)} {move undo : μ}
    (h : Reproduced t journal last) (hmove : Tracker.mutate last move = .ok (undo, next)) :
    Reproduced t (record move next journal) next := by
  obtain ⟨undos, hall⟩ := h.all
  have hnext : Tracker.mutateAll t ((Winners.record move next journal).map Prod.fst) =
      .ok (undo :: undos, next) := by
    rw [moves_record]
    exact Tracker.mutateAll_concat hall hmove
  refine ⟨⟨_, hnext⟩, ?_⟩
  intro j move' t' hj
  rcases Nat.lt_or_ge j journal.length with hlt | hge
  · -- an entry from before: the journal up to it is as it was
    have htake : (Winners.record move next journal).take (j + 1) = journal.take (j + 1) :=
      List.take_append_of_le_length hlt
    have hold : journal[j]? = some (move', t') := by
      rwa [Winners.record, List.getElem?_append_left hlt] at hj
    rw [htake]
    exact h.each j move' t' hold
  · have hone : [(move, next)][j - journal.length]? = some (move', t') := by
      rwa [Winners.record, List.getElem?_append_right hge] at hj
    obtain ⟨hlast, hentry⟩ := List.getElem?_eq_some_iff.mp hone
    have hj : j = journal.length := by
      simp only [List.length_singleton] at hlast
      omega
    have hwhole : (Winners.record move next journal).take (j + 1) =
        Winners.record move next journal := by
      apply List.take_of_length_le
      simp [Winners.record, hj]
    have ht' : next = t' := by
      simp only [List.getElem_singleton, Prod.mk.injEq] at hentry
      exact hentry.2
    rw [hwhole, hnext, ht']
    exact ⟨_, rfl⟩

end Reproduced

/-! ## The moves of one step -/

theorem Reproduced.perform {t last : τ} {journal : List (μ × τ)} (h : Reproduced t journal last)
    (moves : List μ) :
    Reproduced t (perform Winners.record moves last journal).2.2
      (perform Winners.record moves last journal).2.1 := by
  induction moves generalizing last journal with
  | nil => exact h
  | cons move moves ih =>
      rw [perform_cons]
      cases hmove : Tracker.mutate last move with
      | error e => exact h
      | ok result => exact ih (h.record hmove)

/-- How far a list of moves gets: the moves that are made, up to the first that is refused. -/
inductive GetsTo (moves : List μ) (last : τ) : Except Error Unit → List μ → Prop
  | all : GetsTo moves last (.ok ()) moves
  | refused {e : Error} {made rest : List μ} {move : μ} (hmoves : moves = made ++ move :: rest)
      (hmove : Tracker.mutate last move = .error e) : GetsTo moves last (.error e) made

/-- **The moves of a step are made and reported** up to the first that is refused. -/
theorem exists_getsTo (moves : List μ) : ∀ (t : τ) (journal : List (μ × τ)),
    ∃ made, (perform record moves t journal).2.2.map Prod.fst = journal.map Prod.fst ++ made ∧
      GetsTo moves (perform record moves t journal).2.1 (perform record moves t journal).1 made := by
  induction moves with
  | nil =>
      intro t journal
      exact ⟨[], (List.append_nil _).symm, .all⟩
  | cons move moves ih =>
      intro t journal
      rw [perform_cons]
      cases hmove : Tracker.mutate t move with
      | error e => exact ⟨[], (List.append_nil _).symm, .refused rfl hmove⟩
      | ok result =>
          obtain ⟨made, hmade, hgets⟩ := ih result.2 (record move result.2 journal)
          refine ⟨move :: made, ?_, ?_⟩
          · show (perform record moves result.2 (record move result.2 journal)).2.2.map Prod.fst = _
            rw [hmade, moves_record, List.append_assoc, List.singleton_append]
          · show GetsTo _ (perform record moves result.2 (record move result.2 journal)).2.1
              (perform record moves result.2 (record move result.2 journal)).1 _
            generalize (perform record moves result.2 (record move result.2 journal)).1 = r at hgets
            cases hgets with
            | all => exact .all
            | refused hmoves hrefused =>
                exact .refused (congrArg (move :: ·) hmoves) hrefused

/-! ## The journal of a walk -/

namespace Walk

/-- The walk with an empty journal in place of its reports. -/
def recorded (walk : Walk τ π ω) : Walk τ π (List (μ × τ)) :=
  ⟨walk.tracker, walk.memory, walk.draws, []⟩

/-- What a walk reports in a number of steps. -/
def journal (policy : Policy τ μ π) (steps : Nat) (walk : Walk τ π ω) : List (μ × τ) :=
  (walk.recorded.mix policy record steps).2.report

/-- The walk whose observer has read the journal. -/
def retold (onMutation : μ → τ → ω → ω) (report : ω) (walk : Walk τ π (List (μ × τ))) :
    Walk τ π ω :=
  ⟨walk.tracker, walk.memory, walk.draws, retell onMutation walk.report report⟩

variable {policy : Policy τ μ π}

/-- **Every observer reads the journal.** -/
theorem mix_eq_retold (policy : Policy τ μ π) (onMutation : μ → τ → ω → ω) (steps : Nat)
    (walk : Walk τ π ω) :
    walk.mix policy onMutation steps =
      ((walk.recorded.mix policy record steps).1,
        (walk.recorded.mix policy record steps).2.retold onMutation walk.report) :=
  mix_relayed (relays_retell onMutation walk.report) steps walk.recorded

/-! ## What a step adds to the journal -/

theorem reproduced_step (policy : Policy τ μ π) {t : τ} {walk : Walk τ π (List (μ × τ))}
    (h : Reproduced t walk.report walk.tracker) :
    Reproduced t (walk.step policy record).2.report (walk.step policy record).2.tracker :=
  h.perform (walk.planned policy)

/-- A step that is not refused reports all its moves, and says whether there were any. -/
theorem moves_of_step {walk next : Walk τ π (List (μ × τ))} {moved : Bool}
    (hstep : walk.step policy record = (.ok moved, next)) :
    next.report.map Prod.fst = walk.report.map Prod.fst ++ walk.planned policy ∧
      moved = !(walk.planned policy).isEmpty := by
  obtain ⟨made, hmade, hgets⟩ :=
    exists_getsTo (walk.planned policy) walk.tracker walk.report
  have hresult := result_step policy record walk
  have hnext : (perform record (walk.planned policy) walk.tracker walk.report).2.2 = next.report :=
    congrArg (fun result => result.2.report) hstep
  rw [hstep] at hresult
  generalize (perform record (walk.planned policy) walk.tracker walk.report).1 = r
    at hgets hresult
  cases hgets with
  | all =>
      cases hresult
      rw [← hnext]
      exact ⟨hmade, rfl⟩
  | refused _ _ => cases hresult

theorem length_report_of_step {walk next : Walk τ π (List (μ × τ))} {moved : Bool}
    (hstep : walk.step policy record = (.ok moved, next)) :
    next.report.length = walk.report.length + (walk.planned policy).length := by
  have hmoves := congrArg List.length (moves_of_step hstep).1
  simpa only [List.length_map, List.length_append] using hmoves

theorem moved_eq {walk next : Walk τ π (List (μ × τ))} {moved : Bool}
    (hstep : walk.step policy record = (.ok moved, next)) :
    moved = decide (walk.report.length < next.report.length) := by
  rw [(moves_of_step hstep).2, length_report_of_step hstep]
  cases walk.planned policy with
  | nil => simp
  | cons move moves => simp

/-- A step that is refused has made and reported the moves before the one that was refused. -/
theorem exists_of_refused {walk next : Walk τ π (List (μ × τ))} {e : Error}
    (hstep : walk.step policy record = (.error e, next)) :
    ∃ made move rest, walk.planned policy = made ++ move :: rest ∧
      next.report.map Prod.fst = walk.report.map Prod.fst ++ made ∧
      Tracker.mutate next.tracker move = .error e := by
  obtain ⟨made, hmade, hgets⟩ :=
    exists_getsTo (walk.planned policy) walk.tracker walk.report
  have hresult := result_step policy record walk
  have hreport : (perform record (walk.planned policy) walk.tracker walk.report).2.2 =
      next.report := congrArg (fun result => result.2.report) hstep
  have htracker : (perform record (walk.planned policy) walk.tracker walk.report).2.1 =
      next.tracker := congrArg (fun result => result.2.tracker) hstep
  rw [hstep] at hresult
  rw [htracker] at hgets
  rw [hreport] at hmade
  generalize (perform record (walk.planned policy) walk.tracker walk.report).1 = r
    at hgets hresult
  cases hgets with
  | all => cases hresult
  | refused hmoves hmove =>
      cases hresult
      exact ⟨made, _, _, hmoves, hmade, hmove⟩

/-! ## Whole walks -/

/-- What was counted before is added to the result, and makes no difference to the walk. -/
theorem mixFrom_eq (onMutation : μ → τ → ω → ω) {steps : Nat} :
    ∀ (count : Nat) (walk : Walk τ π ω), walk.mixFrom policy onMutation count steps =
      ((walk.mix policy onMutation steps).1.map (count + ·),
        (walk.mix policy onMutation steps).2) := by
  induction steps with
  | zero =>
      intro count walk
      rfl
  | succ steps ih =>
      intro count walk
      rw [mix, mixFrom, mixFrom]
      rcases walk.step policy onMutation with ⟨_ | moved, next⟩
      · rfl
      · dsimp only
        rw [ih, ih (if moved then 0 + 1 else 0)]
        cases (next.mix policy onMutation steps).1 with
        | error e => rfl
        | ok made =>
            cases moved with
            | false => simp [Except.map]
            | true => simp [Except.map, Nat.add_assoc]

theorem mix_succ_of_refused {onMutation : μ → τ → ω → ω} {walk next : Walk τ π ω} {e : Error}
    (hstep : walk.step policy onMutation = (.error e, next)) (steps : Nat) :
    walk.mix policy onMutation (steps + 1) = (.error e, next) := by
  rw [mix, mixFrom, hstep]

theorem mix_succ_of_step {onMutation : μ → τ → ω → ω} {walk next : Walk τ π ω} {moved : Bool}
    (hstep : walk.step policy onMutation = (.ok moved, next)) (steps : Nat) :
    walk.mix policy onMutation (steps + 1) =
      ((next.mix policy onMutation steps).1.map ((if moved then 1 else 0) + ·),
        (next.mix policy onMutation steps).2) := by
  rw [mix, mixFrom, hstep]
  exact mixFrom_eq onMutation _ next

theorem reproduced_mix {t : τ} {steps : Nat} :
    ∀ {walk : Walk τ π (List (μ × τ))}, Reproduced t walk.report walk.tracker →
      Reproduced t (walk.mix policy record steps).2.report
        (walk.mix policy record steps).2.tracker := by
  induction steps with
  | zero =>
      intro walk h
      exact h
  | succ steps ih =>
      intro walk h
      have hnext := reproduced_step policy h
      cases hstep : walk.step policy record with
      | mk result next =>
          rw [hstep] at hnext
          cases result with
          | error e =>
              rw [mix_succ_of_refused hstep]
              exact hnext
          | ok moved =>
              rw [mix_succ_of_step hstep]
              exact ih hnext

/-- The steps, out of a number of them, in which the journal grows. -/
def growths (policy : Policy τ μ π) (steps : Nat) (walk : Walk τ π (List (μ × τ))) : Nat :=
  (List.range steps).countP fun i =>
    decide ((walk.mix policy record i).2.report.length <
      (walk.mix policy record (i + 1)).2.report.length)

theorem growths_succ {walk next : Walk τ π (List (μ × τ))} {moved : Bool}
    (hstep : walk.step policy record = (.ok moved, next)) (steps : Nat) :
    walk.growths policy (steps + 1) = (if moved then 1 else 0) + next.growths policy steps := by
  have hlater : ∀ i, (walk.mix policy record (i + 1)).2 = (next.mix policy record i).2 := by
    intro i
    rw [mix_succ_of_step hstep]
  have hmoved : moved = decide ((walk.mix policy record 0).2.report.length <
      (walk.mix policy record (0 + 1)).2.report.length) := by
    rw [hlater]
    exact moved_eq hstep
  rw [growths, List.range_succ_eq_map, List.countP_cons, List.countP_map, Nat.add_comm, ← hmoved]
  congr 1
  apply List.countP_congr
  intro i _
  simp only [Function.comp, Nat.succ_eq_add_one, hlater]

/-- **The steps that are counted are those that report something.** -/
theorem eq_growths_of_mix {steps : Nat} :
    ∀ {made : Nat} {walk : Walk τ π (List (μ × τ))},
      (walk.mix policy record steps).1 = .ok made → made = walk.growths policy steps := by
  induction steps with
  | zero =>
      intro made walk h
      cases h
      rfl
  | succ steps ih =>
      intro made walk h
      cases hstep : walk.step policy record with
      | mk result next =>
          cases result with
          | error e =>
              rw [mix_succ_of_refused hstep] at h
              cases h
          | ok moved =>
              rw [mix_succ_of_step hstep] at h
              obtain ⟨later, hlater, hmade⟩ := map_eq_ok.mp h
              rw [growths_succ hstep, ← ih hlater, hmade]

/-- A walk that fails is cut off in the middle of a step: after a number of whole steps, some moves
of the step are made and reported, and the next one is refused by the tracker that they lead to. -/
theorem exists_cut {e : Error} {steps : Nat} :
    ∀ {walk : Walk τ π (List (μ × τ))}, (walk.mix policy record steps).1 = .error e →
      ∃ whole count before, whole < steps ∧ walk.mix policy record whole = (.ok count, before) ∧
        ∃ made move rest, before.planned policy = made ++ move :: rest ∧
          (walk.mix policy record steps).2.report.map Prod.fst =
            before.report.map Prod.fst ++ made ∧
          Tracker.mutate (walk.mix policy record steps).2.tracker move = .error e := by
  induction steps with
  | zero =>
      intro walk h
      cases h
  | succ steps ih =>
      intro walk h
      cases hstep : walk.step policy record with
      | mk result next =>
          cases result with
          | error e' =>
              rw [mix_succ_of_refused hstep] at h ⊢
              cases h
              exact ⟨0, 0, walk, Nat.succ_pos steps, rfl, exists_of_refused hstep⟩
          | ok moved =>
              have hmix := mix_succ_of_step hstep
              rw [hmix] at h ⊢
              obtain ⟨whole, count, before, hlt, hwhole, hcut⟩ := ih (map_eq_error.mp h)
              refine ⟨whole + 1, (if moved then 1 else 0) + count, before, Nat.succ_lt_succ hlt,
                ?_, hcut⟩
              rw [hmix, hwhole]
              rfl

/-! ## Main statement -/

/-- How a walk is cut off: after a number of whole steps, a step makes and reports the moves `made`
that it has planned, and the move after them is refused by the tracker that they lead to. -/
def CutOff (policy : Policy τ μ π) (onMutation : μ → τ → ω → ω) (steps : Nat) (walk : Walk τ π ω)
    (e : Error) : Prop :=
  ∃ whole count before, whole < steps ∧ walk.mix policy onMutation whole = (.ok count, before) ∧
    ∃ made move rest, before.planned policy = made ++ move :: rest ∧
      (walk.journal policy steps).map Prod.fst =
        (walk.journal policy whole).map Prod.fst ++ made ∧
      Tracker.mutate (walk.mix policy onMutation steps).2.tracker move = .error e

/-- **A walk that fails is cut off**, whoever watches it. -/
theorem cutOff_of_mix {onMutation : μ → τ → ω → ω} {steps : Nat} {walk : Walk τ π ω} {e : Error}
    (h : (walk.mix policy onMutation steps).1 = .error e) : walk.CutOff policy onMutation steps e := by
  have hmix := mix_eq_retold policy onMutation
  rw [hmix] at h
  obtain ⟨whole, count, before, hlt, hwhole, made, move, rest, hplanned, hmoves, hmove⟩ :=
    exists_cut h
  refine ⟨whole, count, before.retold onMutation walk.report, hlt, ?_, made, move, rest,
    hplanned, ?_, ?_⟩
  · rw [hmix, hwhole]
  · rw [journal, journal, hmoves, hwhole]
  · rw [hmix]
    exact hmove

/-- The journal of a walk reproduces it. -/
theorem reproduced_journal (policy : Policy τ μ π) (onMutation : μ → τ → ω → ω) (steps : Nat)
    (walk : Walk τ π ω) : Reproduced walk.tracker (walk.journal policy steps)
      (walk.mix policy onMutation steps).2.tracker := by
  rw [mix_eq_retold]
  exact reproduced_mix (Reproduced.nil walk.tracker)

/-- **A walk that its journal tells in full.** -/
structure Told (policy : Policy τ μ π) (onMutation : μ → τ → ω → ω) (steps : Nat)
    (walk : Walk τ π ω) : Prop where
  /-- The observer has been told what the journal says, in this order. -/
  report : (walk.mix policy onMutation steps).2.report =
    retell onMutation (walk.journal policy steps) walk.report
  /-- The moves of the journal lead from the first tracker to the last one. -/
  reproduced : Reproduced walk.tracker (walk.journal policy steps)
    (walk.mix policy onMutation steps).2.tracker
  /-- The steps that are counted are those in which the journal grows. -/
  count : ∀ made, (walk.mix policy onMutation steps).1 = .ok made →
    made = (List.range steps).countP fun i =>
      decide ((walk.journal policy i).length < (walk.journal policy (i + 1)).length)
  /-- A walk that fails is cut off at a move that is not in the journal. -/
  cutOff : ∀ e, (walk.mix policy onMutation steps).1 = .error e →
    walk.CutOff policy onMutation steps e

end Walk

/-- **The journal of a walk reproduces it**, whatever the policy plans, also when a move is refused
and the walk fails. -/
theorem walk_is_told_by_journal {τ μ ν π ω : Type} [Tracker τ μ ν] (policy : Policy τ μ π)
    (onMutation : μ → τ → ω → ω) (steps : Nat) (walk : Walk τ π ω) :
    walk.Told policy onMutation steps := by
  have hmix := Walk.mix_eq_retold policy onMutation
  refine ⟨?_, ?_, ?_, ?_⟩
  · rw [hmix]
    rfl
  · exact walk.reproduced_journal policy onMutation steps
  · intro made h
    rw [hmix] at h
    exact Walk.eq_growths_of_mix h
  · intro e h
    exact Walk.cutOff_of_mix h

/-- A walk of a message by a list of proposals, the last of which is no bit of it. -/
def scriptedWalk (steps : Nat) :
    Except Error Nat × Walk (Message overlappingChecks) Nat (List Nat) :=
  Walk.mix (.cyclic [some 0, none, some 2, some 7]) (fun bit _ bits => bit :: bits) steps
    ⟨.zeros overlappingChecks, 0, .ofSeed 1, []⟩

/-- Three steps make two moves, and the fourth one is refused. The message is then where the two
moves lead. -/
theorem walk_is_told_by_journal_scripted :
    (scriptedWalk 3).1 = .ok 2 ∧
    (scriptedWalk 5).1 = .error (.indexOutOfRange 7 3) ∧
    (scriptedWalk 5).2.report = [2, 0] ∧
    ∃ undos, Tracker.mutateAll (.zeros overlappingChecks) [0, 2] =
      .ok (undos, (scriptedWalk 5).2.tracker) := by
  let policy : Policy (Message overlappingChecks) Nat Nat := .cyclic [some 0, none, some 2, some 7]
  have htold := walk_is_told_by_journal policy (fun bit _ bits => bit :: bits) 5
    ⟨.zeros overlappingChecks, 0, .ofSeed 1, ([] : List Nat)⟩
  have hmoves : (Walk.journal policy 5
      (⟨.zeros overlappingChecks, 0, .ofSeed 1, ([] : List Nat)⟩ : Walk _ _ _)).map Prod.fst =
        [0, 2] := by decide +kernel
  refine ⟨by decide +kernel, by decide +kernel, by decide +kernel, ?_⟩
  rw [← hmoves]
  exact htold.reproduced.all

end Winners

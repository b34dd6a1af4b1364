import Winners.Proofs.Tracker.Audit
import Winners.Proofs.Tracker.LocalOptimum

set_option autoImplicit false

/-! # Faults that audits find

An audit compares what a tracker has cached with what is computed again. Nothing is assumed of the
caches here: they may hold anything, and a marginal may be impossible to read. If only what is
computed again is right (`Tracker.Honest`), an audit passes just when all caches hold the truth,
and else it tells the first fault in the order in which it looks: the score, then the marginals from
the lowest element on (`FirstFault`).

The trackers of the library are computed again honestly in any state, not only in those that
mutations reach. With other caches put in front of them (`Tampered`) they still are.
-/

namespace Winners

/-! ## The first fault -/

section

variable {τ μ ν : Type} [Tracker τ μ ν] {t fresh : τ} {trueScore : Int} {trueMarginal : Nat → Int}

/-- **Recomputation is honest**: from the assignment it gives the true score, and a tracker on which
the true marginal of every element can be read. -/
structure Tracker.Honest (t : τ) (trueScore : Int) (trueMarginal : Nat → Int) : Prop where
  score : Tracker.scoreFromScratch t = trueScore
  marginal : ∀ e < Tracker.size t, Tracker.marginal (Tracker.rebuild t) e = .ok (trueMarginal e)

/-- What is wrong with the cached marginal of an element. -/
inductive MarginalFault (t : τ) (trueMarginal : Nat → Int) (e : Nat) : AuditFault → Prop
  | access {error : Error} (h : Tracker.marginal t e = .error error) :
      MarginalFault t trueMarginal e (.access error)
  | differs {cached : Int} (h : Tracker.marginal t e = .ok cached)
      (hne : cached ≠ trueMarginal e) :
      MarginalFault t trueMarginal e (.marginal e cached (trueMarginal e))

/-- **The first fault of a tracker**: the score if it is wrong, or else what is wrong with the lowest
element of which something is. -/
inductive FirstFault (t : τ) (trueScore : Int) (trueMarginal : Nat → Int) : AuditFault → Prop
  | score (h : Tracker.score t ≠ trueScore) :
      FirstFault t trueScore trueMarginal (.score (Tracker.score t) trueScore)
  | marginal {e : Nat} {fault : AuditFault} (hscore : Tracker.score t = trueScore)
      (he : e < Tracker.size t) (hfault : MarginalFault t trueMarginal e fault)
      (hbefore : ∀ e' < e, Tracker.marginal t e' = .ok (trueMarginal e')) :
      FirstFault t trueScore trueMarginal fault

/-- An element passes if its marginal can be read and is the true one. -/
theorem auditElement_eq_ok_of_fresh {e : Nat}
    (h : Tracker.marginal fresh e = .ok (trueMarginal e)) :
    auditElement t fresh e = .ok () ↔ Tracker.marginal t e = .ok (trueMarginal e) := by
  rw [auditElement_eq_ok_iff, h]
  constructor
  · rintro ⟨m, hm, ⟨⟩⟩
    exact hm
  · intro hm
    exact ⟨_, hm, rfl⟩

theorem auditElement_of_error {e : Nat} {error : Error} (h : Tracker.marginal t e = .error error) :
    auditElement t fresh e = .error (.access error) := by
  unfold auditElement
  rw [h]
  rfl

theorem auditElement_of_ne {e : Nat} {cached recomputed : Int}
    (h : Tracker.marginal t e = .ok cached) (hfresh : Tracker.marginal fresh e = .ok recomputed)
    (hne : cached ≠ recomputed) :
    auditElement t fresh e = .error (.marginal e cached recomputed) := by
  unfold auditElement
  rw [h, hfresh]
  exact if_pos hne

theorem auditElement_eq_error_of_fresh {e : Nat}
    (h : Tracker.marginal fresh e = .ok (trueMarginal e)) {fault : AuditFault} :
    auditElement t fresh e = .error fault ↔ MarginalFault t trueMarginal e fault := by
  constructor
  · intro hfault
    cases ht : Tracker.marginal t e with
    | error error =>
        rw [auditElement_of_error ht] at hfault
        cases hfault
        exact .access ht
    | ok cached =>
        by_cases heq : cached = trueMarginal e
        · rw [(auditElement_eq_ok_of_fresh h).mpr (heq ▸ ht)] at hfault
          cases hfault
        · rw [auditElement_of_ne ht h heq] at hfault
          cases hfault
          exact .differs ht heq
  · rintro (⟨hread⟩ | ⟨hread, hne⟩)
    · exact auditElement_of_error hread
    · exact auditElement_of_ne hread h hne

/-- **An audit finds the first fault.** -/
theorem Tracker.Honest.audit_eq_error_iff (h : Tracker.Honest t trueScore trueMarginal)
    {fault : AuditFault} :
    audit t = .error fault ↔ FirstFault t trueScore trueMarginal fault := by
  by_cases hscore : Tracker.score t = trueScore
  · rw [audit_of_score_eq (hscore.trans h.score.symm), forM_range_eq_error]
    constructor
    · rintro ⟨e, he, hfault, hbefore⟩
      refine .marginal hscore he ((auditElement_eq_error_of_fresh (h.marginal e he)).mp hfault) ?_
      intro e' he'
      exact (auditElement_eq_ok_of_fresh (h.marginal e' (he'.trans he))).mp (hbefore e' he')
    · rintro (hne | @⟨e, fault, -, he, hfault, hbefore⟩)
      · exact absurd hscore hne
      · refine ⟨e, he, (auditElement_eq_error_of_fresh (h.marginal e he)).mpr hfault, ?_⟩
        intro e' he'
        exact (auditElement_eq_ok_of_fresh (h.marginal e' (he'.trans he))).mpr (hbefore e' he')
  · rw [audit_of_score_ne (h.score.symm ▸ hscore), h.score]
    constructor
    · rintro ⟨⟩
      exact .score hscore
    · rintro (hne | ⟨heq, -, -, -⟩)
      · rfl
      · exact absurd heq hscore

theorem Tracker.Honest.audit_eq_ok_iff (h : Tracker.Honest t trueScore trueMarginal) :
    audit t = .ok () ↔ Tracker.score t = trueScore ∧
      ∀ e < Tracker.size t, Tracker.marginal t e = .ok (trueMarginal e) := by
  rw [Winners.audit_eq_ok_iff, h.score]
  apply and_congr_right
  intro _
  apply forall₂_congr
  intro e he
  rw [h.marginal e he]
  constructor
  · rintro ⟨m, hm, ⟨⟩⟩
    exact hm
  · intro hm
    exact ⟨_, hm, rfl⟩

end

/-! ## Shipped trackers -/

/-- The marginals of subsets and messages are what flips add to the score. -/
theorem VertexSubset.honest {n : Nat} {G : Graph n} (hG : G.Simple) (S : VertexSubset G) :
    Tracker.Honest S (G.edgesWithin S.member.get)
      fun e => G.edgesWithin (Patch.flipAt S.member e).get - G.edgesWithin S.member.get where
  score := rfl
  marginal e he :=
    (VertexSubset.accurate hG).marginal (exact_ofMembers G S.member) (⟨e, he⟩ : Fin n)

theorem Message.honest {n m : Nat} {C : Code n m} (hC : C.Dual) (x : Message C) :
    Tracker.Honest x (C.satisfiedWeight x.bits.get)
      fun e => C.satisfiedWeight (Patch.flipAt x.bits e).get - C.satisfiedWeight x.bits.get where
  score := rfl
  marginal e he := (Message.accurate hC).marginal ⟨x.bits, rfl⟩ (⟨e, he⟩ : Fin n)

/-- Those of colourings are the least that other colours do. -/
theorem Coloring.honest {n : Nat} {G : Graph n} (C : Coloring G) :
    Tracker.Honest C (conflictCount G C.colors) fun e =>
      if h : e < n then bestDelta (paletteOf G C.colors ⟨e, h⟩) (C.colors.get ⟨e, h⟩) else 0 where
  score := rfl
  marginal e he := by
    have hlt : e < n := he
    rw [dif_pos hlt, ← ofColors_marginals]
    exact marginal_val (ofColors G C.colors) ⟨e, hlt⟩

/-! ## Tampering -/

/-- A tracker with other caches in front of its own. -/
structure Tampered (τ : Type) where
  tracker : τ
  score : Int
  marginal : Nat → Except Error Int

namespace Tampered

variable {τ μ ν : Type} [Tracker τ μ ν]

/-- The tracker as it is, with its own caches. -/
def plain (t : τ) : Tampered τ := ⟨t, Tracker.score t, Tracker.marginal t⟩

instance : Tracker (Tampered τ) μ ν where
  size t := Tracker.size t.tracker
  score t := t.score
  marginal t := t.marginal
  apply t move :=
    let (result, tracker) := Tracker.apply t.tracker move
    (result, { t with tracker })
  unchanged {t} _ _ h := congrArg (fun tracker => { t with tracker }) (Tracker.unchanged h)
  assignment t := Tracker.assignment t.tracker
  scoreFromScratch t := Tracker.scoreFromScratch t.tracker
  rebuild t := plain (Tracker.rebuild t.tracker)
  scoreSpan t := Tracker.scoreSpan t.tracker
  moveText := Tracker.moveText τ

/-- Whatever is put in front of the caches, recomputation is as honest as before. -/
theorem honest {t : Tampered τ} {trueScore : Int} {trueMarginal : Nat → Int}
    (h : Tracker.Honest t.tracker trueScore trueMarginal) :
    Tracker.Honest t trueScore trueMarginal where
  score := h.score
  marginal := h.marginal

end Tampered

/-- **Audits are sound and complete.** If recomputation is honest, an audit passes just when the
score and all marginals are the true ones and can be read, whatever the caches are. It fails with
the first fault, and with no other. -/
theorem audit_tells_first_fault {τ μ ν : Type} [Tracker τ μ ν] {t : τ} {trueScore : Int}
    {trueMarginal : Nat → Int} (h : Tracker.Honest t trueScore trueMarginal) :
    (audit t = .ok () ↔ Tracker.score t = trueScore ∧
      ∀ e < Tracker.size t, Tracker.marginal t e = .ok (trueMarginal e)) ∧
    ∀ fault, audit t = .error fault ↔ FirstFault t trueScore trueMarginal fault :=
  ⟨h.audit_eq_ok_iff, fun _ => h.audit_eq_error_iff⟩

/-- Caches of every kind of tracker with several faults: a subset with a wrong score and no marginal
that can be read, a message of which one marginal cannot be read and the next one is wrong, and a
colouring of which one is wrong and the next one cannot be read. -/
theorem audit_tells_first_fault_tampered :
    (let S := VertexSubset.ofVertices (Graph.complete 3) [0, 1];
      audit (⟨S, 2, fun _ => .error .emptyPopulation⟩ : Tampered _) = .error (.score 2 1)) ∧
    (let x := Message.zeros overlappingChecks;
      audit (⟨x, 7, fun e =>
        if e = 1 then .error (.indexOutOfRange 4 3) else .ok (-7)⟩ : Tampered _) =
          .error (.access (.indexOutOfRange 4 3))) ∧
    (audit (⟨plainTriangle, 3, fun e =>
      if e = 2 then .error .emptyPopulation else .ok (-2 + e)⟩ : Tampered _) =
        .error (.marginal 1 (-1) (-2))) ∧
    audit (Tampered.plain plainTriangle) = .ok () := by
  refine ⟨?_, ?_, ?_, ?_⟩
  · intro S
    have hhonest := VertexSubset.honest (Graph.Constructed.complete 3).simple S
    have hscore : ((Graph.complete 3).edgesWithin S.member.get : Int) = 1 := by decide +kernel
    rw [hscore] at hhonest
    exact ((audit_tells_first_fault (Tampered.honest hhonest)).2 _).mpr (.score (by decide))
  · intro x
    have hhonest := x.honest constructed_overlappingChecks.dual
    refine ((audit_tells_first_fault (Tampered.honest hhonest)).2 _).mpr ?_
    refine .marginal (e := 1) (by decide +kernel) (by decide) (.access rfl) ?_
    decide +kernel
  · obtain ⟨trueScore, trueMarginal, hhonest, hscore, hfirst, hsecond⟩ :
        ∃ trueScore trueMarginal, Tracker.Honest plainTriangle trueScore trueMarginal ∧
          trueScore = 3 ∧ trueMarginal 0 = -2 ∧ trueMarginal 1 = -2 :=
      ⟨_, _, plainTriangle.honest, by decide +kernel, by decide +kernel, by decide +kernel⟩
    refine ((audit_tells_first_fault (Tampered.honest hhonest)).2 _).mpr ?_
    refine .marginal (e := 1) hscore.symm (by decide) ?_ ?_
    · have hne : -1 ≠ trueMarginal 1 := by
        rw [hsecond]
        decide
      exact hsecond.subst (motive := fun wanted =>
        MarginalFault _ trueMarginal 1 (.marginal 1 (-1) wanted)) (.differs rfl hne)
    · intro e he
      cases Nat.lt_one_iff.mp he
      rw [hfirst]
      rfl
  · have hhonest := plainTriangle.honest
    refine (audit_tells_first_fault (Tampered.honest hhonest)).1.mpr ⟨?_, ?_⟩
    · decide +kernel
    · show ∀ e < 3, _
      decide +kernel

end Winners

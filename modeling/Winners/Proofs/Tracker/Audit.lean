import Winners.Proofs.Tracker.Undo
import Winners.Tracker.Audit

set_option autoImplicit false

/-! # Trackers that pass audits

An audit passes just when the cached score is the one from scratch and all cached marginals can be
read and are those of the rebuilt tracker (`audit_eq_ok_iff`). This is so for subsets with exact
caches and for colourings and messages that are equal to what is rebuilt from them.
-/

namespace Winners

/-! ## What an audit finds out -/

section

variable {τ μ ν : Type} [Tracker τ μ ν] {t fresh : τ}

theorem auditElement_eq_ok_iff {e : Nat} :
    auditElement t fresh e = .ok () ↔
      ∃ m, Tracker.marginal t e = .ok m ∧ Tracker.marginal fresh e = .ok m := by
  unfold auditElement
  cases ht : Tracker.marginal t e with
  | error fault =>
      constructor
      · intro h
        cases h
      · rintro ⟨m, hm, -⟩
        cases hm
  | ok cached =>
      cases hfresh : Tracker.marginal fresh e with
      | error fault =>
          constructor
          · intro h
            cases h
          · rintro ⟨m, -, hm⟩
            cases hm
      | ok recomputed =>
          show (if cached ≠ recomputed then _ else _) = _ ↔ _
          by_cases heq : cached = recomputed
          · rw [if_neg (not_not.mpr heq), heq]
            exact iff_of_true rfl ⟨recomputed, rfl, rfl⟩
          · rw [if_pos heq]
            constructor
            · intro h
              cases h
            · rintro ⟨m, ⟨⟩, ⟨⟩⟩
              exact absurd rfl heq

theorem audit_of_score_ne (h : Tracker.score t ≠ Tracker.scoreFromScratch t) :
    audit t = .error (.score (Tracker.score t) (Tracker.scoreFromScratch t)) := by
  unfold audit
  rw [if_pos h]
  rfl

theorem audit_of_score_eq (h : Tracker.score t = Tracker.scoreFromScratch t) :
    audit t = (List.range (Tracker.size t)).forM (auditElement t (Tracker.rebuild t)) := by
  unfold audit
  rw [if_neg (not_not.mpr h)]

/-- **What it takes to pass an audit.** -/
theorem audit_eq_ok_iff :
    audit t = .ok () ↔ Tracker.score t = Tracker.scoreFromScratch t ∧
      ∀ e < Tracker.size t, ∃ m, Tracker.marginal t e = .ok m ∧
        Tracker.marginal (Tracker.rebuild t) e = .ok m := by
  by_cases hscore : Tracker.score t = Tracker.scoreFromScratch t
  · rw [audit_of_score_eq hscore, and_iff_right hscore]
    simp only [forM_eq_ok, List.mem_range, auditElement_eq_ok_iff]
  · rw [audit_of_score_ne hscore]
    constructor
    · intro h
      cases h
    · rintro ⟨h, -⟩
      exact absurd h hscore

/-- **A tracker whose caches are those computed from scratch.** Audits of it pass. -/
structure Audited (t : τ) : Prop where
  score : Tracker.score t = Tracker.scoreFromScratch t
  marginal : ∀ e, Tracker.marginal t e = Tracker.marginal (Tracker.rebuild t) e
  audit : audit t = .ok ()

theorem audited_of_marginals (hscore : Tracker.score t = Tracker.scoreFromScratch t)
    (hmarginal : ∀ e, Tracker.marginal t e = Tracker.marginal (Tracker.rebuild t) e)
    (hreadable : ∀ e < Tracker.size t, ∃ m, Tracker.marginal t e = .ok m) : Audited t where
  score := hscore
  marginal := hmarginal
  audit := by
    refine audit_eq_ok_iff.mpr ⟨hscore, fun e he => ?_⟩
    obtain ⟨m, hm⟩ := hreadable e he
    exact ⟨m, hm, hmarginal e ▸ hm⟩

end

/-! ## Shipped trackers -/

theorem VertexSubset.Exact.audited {n : Nat} {G : Graph n} {S : VertexSubset G} (hS : S.Exact) :
    Audited S :=
  audited_of_marginals hS.edges (hS.alike (exact_ofMembers G S.member) rfl).marginal
    fun e he => ⟨_, marginal_val S ⟨e, he⟩⟩

theorem Coloring.audited_of_reachable {n : Nat} {G : Graph n} (hG : G.Simple) {C : Coloring G}
    (hC : Tracker.Reachable Coloring.Fresh C) : Audited C := by
  obtain ⟨-, hrebuild⟩ := eq_ofColors_of_reachable hG hC
  refine audited_of_marginals (conflicts_of_reachable hG hC) ?_ ?_
  · exact fun e => congrArg (Tracker.marginal · e) hrebuild
  · exact fun e he => ⟨_, marginal_val C ⟨e, he⟩⟩

theorem Message.audited_of_reachable {n m : Nat} {C : Code n m} (hC : C.Dual) {x : Message C}
    (hx : Tracker.Reachable Message.Fresh x) : Audited x := by
  have hrebuild := eq_ofBits_of_reachable hC hx
  refine audited_of_marginals (score_of_reachable hC hx) ?_ ?_
  · exact fun e => congrArg (Tracker.marginal · e) hrebuild
  · exact fun e he => ⟨_, marginal_val x ⟨e, he⟩⟩

end Winners

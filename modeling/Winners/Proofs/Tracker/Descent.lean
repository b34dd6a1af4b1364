import Winners.Proofs.Number.Faithful
import Winners.Proofs.Tracker.Size
import Winners.Tracker.Descent

set_option autoImplicit false

/-! # Where a descent leads

A descent makes flips (`Descends`) until there is none left that improves (`Settled`). A budget only
cuts it short: from the number of its flips on, all budgets give the same result
(`flips_of_descends`), so the one that stands for no budget at all is as good as any that is large
enough.

On a vertex subset with exact caches, every flip of a descent towards few edges takes a member out
that still has an edge to another one. Each of them takes away at least one edge, so the descent
settles, and there is no edge left then (`exists_thinned`).
-/

namespace Winners

namespace Descent

variable {τ ν : Type} [Tracker τ Nat ν] {d : Direction} {t t' : τ}

/-! ## The best element -/

/-- What the search for the best of the first elements finds: an element whose flip improves, or
none if there is no such element. -/
inductive Found (d : Direction) (t : τ) (count : Nat) : Option (Nat × Int) → Prop
  | none (h : ∀ e < count, ∀ m, Tracker.marginal t e = .ok m →
      d.improves (.ofInt m) .zero = false) : Found d t count none
  | some {e : Nat} {m : Int} (he : e < count) (hm : Tracker.marginal t e = .ok m)
      (himproves : d.improves (.ofInt m) .zero = true) : Found d t count (some (e, m))

theorem found_better {count : Nat} {best : Option (Nat × Int)} {m : Int}
    (h : Found d t count best) (hm : Tracker.marginal t count = .ok m) :
    Found d t (count + 1) (better d best count m) := by
  unfold better
  cases himproves : d.improves (.ofInt m) .zero with
  | true =>
      have hnew : Found d t (count + 1) (some (count, m)) := .some count.lt_succ_self hm himproves
      rw [if_pos rfl]
      cases h with
      | none => exact hnew
      | some he hm' himproves' =>
          -- which of the two is better does not matter here: both improve
          dsimp only
          split
          · exact hnew
          · exact .some (Nat.lt_succ_of_lt he) hm' himproves'
  | false =>
      rw [if_neg Bool.false_ne_true]
      cases h with
      | none hnone =>
          refine .none ?_
          intro e he m' hm'
          rcases Nat.lt_succ_iff_lt_or_eq.mp he with hlt | rfl
          · exact hnone e hlt m' hm'
          · rw [hm] at hm'
            cases hm'
            exact himproves
      | some he hm' himproves' => exact .some (Nat.lt_succ_of_lt he) hm' himproves'

/-- If all marginals can be read, the best element is found. -/
theorem exists_bestElement (d : Direction)
    (h : ∀ e < Tracker.size t, ∃ m, Tracker.marginal t e = .ok m) :
    ∃ best, bestElement d t = .ok best ∧ Found d t (Tracker.size t) best := by
  unfold bestElement
  generalize Tracker.size t = count at h ⊢
  induction count with
  | zero => exact ⟨none, rfl, .none fun e he => absurd he e.not_lt_zero⟩
  | succ count ih =>
      obtain ⟨best, hbest, hfound⟩ := ih fun e he => h e (Nat.lt_succ_of_lt he)
      obtain ⟨m, hm⟩ := h count count.lt_succ_self
      refine ⟨better d best count m, ?_, found_better hfound hm⟩
      rw [List.range_succ, List.foldlM_append, hbest]
      show (do return better d best count (← Tracker.marginal t count)) >>= pure = _
      rw [hm]
      rfl

/-! ## Descents -/

/-- No flip improves. -/
def Settled (d : Direction) (t : τ) : Prop := bestElement d t = .ok none

/-- A number of best flips, one after the other. -/
inductive Descends (d : Direction) : Nat → τ → τ → Prop
  | refl (t : τ) : Descends d 0 t t
  | flip {count e undo : Nat} {m : Int} {t next last : τ}
      (hbest : bestElement d t = .ok (some (e, m))) (hmove : Tracker.mutate t e = .ok (undo, next))
      (hrest : Descends d count next last) : Descends d (count + 1) t last

theorem flips_of_none (h : bestElement d t = .ok none) (count budget : Nat) :
    flips d count budget t = .ok (count, t) := by
  cases budget with
  | zero => rfl
  | succ budget =>
      rw [flips, h]
      rfl

theorem flips_of_some {e undo : Nat} {m : Int} (hbest : bestElement d t = .ok (some (e, m)))
    (hmove : Tracker.mutate t e = .ok (undo, t')) (count budget : Nat) :
    flips d count (budget + 1) t = flips d (count + 1) budget t' := by
  rw [flips, hbest]
  show (Tracker.mutate t e >>= fun moved => flips d (count + 1) budget moved.2) = _
  rw [hmove]
  rfl

/-- **From the number of flips on, budgets do not matter.** -/
theorem flips_of_descends {flipped : Nat} (h : Descends d flipped t t') (hsettled : Settled d t') :
    ∀ (count : Nat) {budget : Nat}, flipped ≤ budget →
      flips d count budget t = .ok (count + flipped, t') := by
  induction h with
  | refl t => exact fun count budget _ => flips_of_none hsettled count budget
  | @flip flipped e undo m t next last hbest hmove _ ih =>
      intro count budget hbudget
      cases budget with
      | zero => omega
      | succ budget =>
          -- the flip moves from the budget to the count
          rw [flips_of_some hbest hmove, ih hsettled _ (Nat.le_of_succ_le_succ hbudget),
            Nat.add_assoc, Nat.add_comm 1]

/-- If every flip lowers a measure, and none fails, a descent settles after no more flips than the
measure counts. -/
theorem exists_descends {P : τ → Prop} (measure : τ → Nat)
    (hflip : ∀ t, P t → Settled d t ∨ ∃ e m undo next, bestElement d t = .ok (some (e, m)) ∧
      Tracker.mutate t e = .ok (undo, next) ∧ P next ∧ measure next < measure t) (ht : P t) :
    ∃ flipped last, Descends d flipped t last ∧ Settled d last ∧ flipped ≤ measure t := by
  induction hmeasure : measure t using Nat.strong_induction_on generalizing t with
  | _ size ih =>
      rcases hflip t ht with hsettled | ⟨e, m, undo, next, hbest, hmove, hnext, hless⟩
      · exact ⟨0, t, .refl t, hsettled, Nat.zero_le _⟩
      · obtain ⟨flipped, last, hdescends, hsettled, hle⟩ := ih _ (hmeasure ▸ hless) hnext rfl
        exact ⟨flipped + 1, last, .flip hbest hmove hdescends, hsettled, by omega⟩

end Descent

/-! ## Vertex subsets -/

namespace VertexSubset

open Descent

variable {n : Nat} {G : Graph n} {S T : VertexSubset G}

/-- Taking a vertex out improves the score if it is a member with an edge to another one; no
vertex improves it by entering. -/
theorem improves_marginal_iff (v : Fin n) :
    Direction.minimize.improves (.ofInt (S.marginal v)) .zero = true ↔
      S.member.get v = true ∧ 0 < S.internalDegree.get v := by
  rw [Direction.improves, decide_eq_true_eq, Binary64.ofInt_lt_zero_iff, marginal]
  split
  · next hv => simp [hv]
  · next hv => simp [hv]

theorem exists_found (S : VertexSubset G) (d : Direction) :
    ∃ best, bestElement d S = .ok best ∧ Found d S n best :=
  exists_bestElement d fun e he => ⟨_, marginal_val S ⟨e, he⟩⟩

/-- The best element is a member with an edge to another one. -/
theorem member_of_bestElement {e : Nat} {m : Int}
    (h : bestElement .minimize S = .ok (some (e, m))) :
    ∃ v : Fin n, e = v.val ∧ S.member.get v = true ∧ 0 < S.internalDegree.get v := by
  obtain ⟨best, hbest, hfound⟩ := S.exists_found .minimize
  rw [h] at hbest
  cases hbest
  cases hfound with
  | some he hm himproves =>
      have hmarginal := marginal_val S ⟨e, he⟩
      rw [hm] at hmarginal
      cases hmarginal
      exact ⟨⟨e, he⟩, rfl, (improves_marginal_iff _).mp himproves⟩

/-- A settled set has no edges inside. -/
theorem Exact.edgesWithin_of_settled (hG : G.Simple) (hS : S.Exact)
    (h : Settled .minimize S) : G.edgesWithin S.member.get = 0 := by
  obtain ⟨best, hbest, hfound⟩ := S.exists_found .minimize
  rw [show bestElement .minimize S = .ok none from h] at hbest
  cases hbest
  cases hfound with
  | none hnone =>
      apply (Graph.edgesWithin_eq_zero_iff hG).mpr
      intro u v hu hv hadj
      -- an edge inside would make it worth while to take out either end
      have hdegree : 0 < S.internalDegree.get u := by
        rw [hS.degrees]
        exact List.countP_pos_iff.mpr ⟨v, hadj, hv⟩
      have himproves := improves_marginal_iff u |>.mpr ⟨hu, hdegree⟩
      rw [hnone u u.isLt _ (marginal_val S u)] at himproves
      cases himproves

/-! ## What a flip takes out -/

/-- A set with vertices taken out, and an edge at least with each of them. -/
structure TakesOut (removed : Nat) (S T : VertexSubset G) : Prop where
  exact : T.Exact
  subset : ∀ v, T.member.get v = true → S.member.get v = true
  size : removed + T.size = S.size
  edges : removed + T.edgesInside ≤ S.edgesInside

theorem Exact.takesOut_toggle (hG : G.Simple) (hS : S.Exact) {v : Fin n}
    (hv : S.member.get v = true) (hdegree : 0 < S.internalDegree.get v) :
    TakesOut 1 S (S.toggle v) where
  exact := hS.toggle hG v
  subset := by
    intro u hu
    rw [toggle_member, Patch.flipAt_val, Patch.get_set] at hu
    split at hu
    · next heq => rw [heq]; exact hv
    · exact hu
  size := by
    have hpos := Arranged.size_pos hS.sides hv
    rw [size_toggle_of_member hv]
    omega
  edges := by
    rw [toggle_edgesInside, marginal, if_pos hv]
    omega

theorem TakesOut.trans {removed more : Nat} {U : VertexSubset G} (h : TakesOut removed S T)
    (h' : TakesOut more T U) : TakesOut (more + removed) S U where
  exact := h'.exact
  subset v hv := h.subset v (h'.subset v hv)
  size := by
    have := h.size
    have := h'.size
    omega
  edges := by
    have := h.edges
    have := h'.edges
    omega

/-- **A descent towards few edges only takes members out**, one with each flip. -/
theorem Exact.takesOut_of_descends (hG : G.Simple) {flipped : Nat} (hS : S.Exact)
    (h : Descends .minimize flipped S T) : TakesOut flipped S T := by
  induction h with
  | refl S => exact ⟨hS, fun _ hv => hv, Nat.zero_add _, by omega⟩
  | flip hbest hmove _ ih =>
      obtain ⟨v, rfl, hv, hdegree⟩ := member_of_bestElement hbest
      rw [mutate_of_lt _ v.isLt] at hmove
      cases hmove
      exact (hS.takesOut_toggle hG hv hdegree).trans (ih (hS.toggle hG v))

/-- A set that is not settled has a best flip, and fewer edges after it. -/
theorem Exact.settled_or_flip (hG : G.Simple) (hS : S.Exact) :
    Settled .minimize S ∨ ∃ e m undo next, bestElement .minimize S = .ok (some (e, m)) ∧
      Tracker.mutate S e = .ok (undo, next) ∧ next.Exact ∧
      next.edgesInside.toNat < S.edgesInside.toNat := by
  obtain ⟨best, hbest, -⟩ := S.exists_found .minimize
  cases best with
  | none => exact Or.inl hbest
  | some found =>
      obtain ⟨e, m⟩ := found
      obtain ⟨v, rfl, hv, hdegree⟩ := member_of_bestElement hbest
      have hout := hS.takesOut_toggle hG hv hdegree
      refine Or.inr ⟨v, m, v, S.toggle v, hbest, mutate_of_lt S v.isLt, hout.exact, ?_⟩
      -- the number of edges after the flip is no less than zero, so one less is less as a `Nat` too
      have hnext := hout.exact.edges
      have hless := hout.edges
      omega

theorem Exact.exists_descends (hG : G.Simple) (hS : S.Exact) :
    ∃ flipped T, Descends .minimize flipped S T ∧ Settled .minimize T ∧ flipped ≤ G.edgeCount := by
  obtain ⟨flipped, T, hdescends, hsettled, hle⟩ := Descent.exists_descends (P := Exact)
    (fun S => S.edgesInside.toNat) (fun S hS => hS.settled_or_flip hG) hS
  refine ⟨flipped, T, hdescends, hsettled, ?_⟩
  calc flipped ≤ S.edgesInside.toNat := hle
    _ = G.edgesWithin S.member.get := by rw [hS.edges, Int.toNat_natCast]
    _ ≤ G.edgeCount := Graph.edgesWithin_le hG _

/-- What a descent towards few edges leaves of a set: an independent subset, counted by the flips
that it takes. -/
structure Thinned (S T : VertexSubset G) (removed : Nat) : Prop where
  subset : T.members ⊆ S.members
  independent : G.isIndependent (T.members.map Fin.val) = true
  count : removed = S.members.length - T.members.length
  length_le : T.members.length ≤ S.members.length

/-- **A descent thins a set out until it is independent**, and any budget that is large enough
leads there too. -/
theorem Exact.exists_thinned (hG : G.Simple) (hS : S.Exact) :
    ∃ removed T, Thinned S T removed ∧ Descent.descend .minimize none S = .ok (removed, T) ∧
      ∀ budget, removed ≤ budget →
        Descent.descend .minimize (some budget) S = .ok (removed, T) := by
  obtain ⟨removed, T, hdescends, hsettled, hle⟩ := hS.exists_descends hG
  have hout := hS.takesOut_of_descends hG hdescends
  have hresult : ∀ budget, removed ≤ budget → flips .minimize 0 budget S = .ok (removed, T) := by
    intro budget hbudget
    rw [flips_of_descends hdescends hsettled 0 hbudget, Nat.zero_add]
  refine ⟨removed, T, ?_, hresult _ hle, hresult⟩
  -- the sizes are those of the arrays; members are listed from the vector
  have hsize := hout.size
  rw [← Arranged.length_members hS.sides, ← Arranged.length_members hout.exact.sides] at hsize
  refine ⟨?_, ?_, by omega, by omega⟩
  · intro v hv
    exact (mem_members hS v).mpr (hout.subset v ((mem_members hout.exact v).mp hv))
  · rw [isIndependent_members_iff hG hout.exact]
    exact hout.exact.edgesWithin_of_settled hG hsettled

end VertexSubset

end Winners

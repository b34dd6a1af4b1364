import Winners.Proofs.Tracker.Locality
import Winners.Proofs.Tracker.Size

set_option autoImplicit false

/-! # Exchanging two vertices of a subset

An exchange lets one vertex enter and then another one leave. The two toggles touch each other where
the vertices are adjacent: the vertex that leaves has then one more neighbour in the set than it had
before, so the score loses one more than both marginals say (`marginal_of_entered`). What is
observed afterwards depends on the members only, and these are the same when the vertex that leaves
goes first. So an exchange is the same as two single moves in either order
(`exchange_is_two_moves`).
-/

namespace Winners

namespace VertexSubset

variable {n : Nat} {G : Graph n} {S : VertexSubset G} {a r : Fin n}

/-! ## The two toggles -/

theorem ne_of_member (ha : S.member.get a = false) (hr : S.member.get r = true) : r ≠ a := by
  rintro rfl
  rw [ha] at hr
  cases hr

/-- Members stay when another vertex enters. -/
theorem member_of_entered (ha : S.member.get a = false) (hr : S.member.get r = true) :
    (S.toggle a).member.get r = true := by
  rw [toggle_member, Patch.get_flipAt, if_neg (ne_of_member ha hr), hr]

/-- **The correction term.** A member gains a neighbour in the set when an adjacent vertex
enters. -/
theorem Exact.marginal_of_entered (hG : G.Simple) (hS : S.Exact) (ha : S.member.get a = false)
    (hr : S.member.get r = true) :
    (S.toggle a).marginal r = S.marginal r - if G.hasEdge a r then 1 else 0 := by
  have hedge : G.hasEdge a r = true ↔ G.Adjacent a r := by
    rw [Graph.hasEdge_val, decide_eq_true_iff]
  rw [hS.marginal_toggle hG (ne_of_member ha hr), correction, ha, hr]
  by_cases hadjacent : G.Adjacent a r
  · rw [if_pos hadjacent, if_pos (hedge.mpr hadjacent)]
    rfl
  · rw [if_neg hadjacent, if_neg (mt hedge.mp hadjacent), add_zero, sub_zero]

theorem mutateAll_two (S : VertexSubset G) (u v : Fin n) :
    Tracker.mutateAll S [u.val, v.val] = .ok ([v.val, u.val], (S.toggle u).toggle v) := by
  have hnone : Tracker.mutateAll S ([] : List Nat) = .ok ([], S) := rfl
  have hfirst : Tracker.mutateAll S [u.val] = .ok ([u.val], S.toggle u) :=
    Tracker.mutateAll_concat hnone (mutate_of_lt S u.isLt)
  exact Tracker.mutateAll_concat hfirst (mutate_of_lt (S.toggle u) v.isLt)

theorem Exact.alike_toggle_comm (hG : G.Simple) (hS : S.Exact) (u v : Fin n) :
    Alike ((S.toggle u).toggle v) ((S.toggle v).toggle u) := by
  apply ((hS.toggle hG u).toggle hG v).alike ((hS.toggle hG v).toggle hG u)
  rw [toggle_member, toggle_member, toggle_member, toggle_member, Patch.flipAt_comm]

/-! ## Exchanges -/

/-- **What an exchange of `r` for `a` leads to.** -/
structure Exchanged (S : VertexSubset G) (a r : Fin n) (S' : VertexSubset G) : Prop where
  mem_members : ∀ v, v ∈ S'.members ↔ v = a ∨ v ∈ S.members ∧ v ≠ r
  size : S'.size = S.size
  /-- The caches hold what they are to hold, the arrays included. -/
  exact : S'.Exact
  rebuilt : Alike S' (Tracker.rebuild S')
  /-- The marginals count the edge between the two vertices once too often. -/
  score : Tracker.score S' =
    Tracker.score S + S.marginal a + S.marginal r - if G.hasEdge a r then 1 else 0
  leaves_first : ∃ T, Tracker.mutateAll S [r.val, a.val] = .ok ([a.val, r.val], T) ∧ Alike S' T
  enters_first : ∃ T, Tracker.mutateAll S [a.val, r.val] = .ok ([r.val, a.val], T) ∧ Alike S' T

theorem Exact.exchanged (hG : G.Simple) (hS : S.Exact) (ha : S.member.get a = false)
    (hr : S.member.get r = true) : Exchanged S a r ((S.toggle a).toggle r) := by
  have hne : r ≠ a := ne_of_member ha hr
  have hstays := member_of_entered ha hr
  have hexact : ((S.toggle a).toggle r).Exact := (hS.toggle hG a).toggle hG r
  refine ⟨?_, ?_, hexact, ?_, ?_, ?_, ?_⟩
  · intro v
    -- the members are the old ones with two flags flipped
    rw [VertexSubset.mem_members hexact, VertexSubset.mem_members hS, toggle_member, toggle_member,
      Patch.get_flipAt, ← toggle_member, hstays, toggle_member, Patch.get_flipAt, ha]
    by_cases hvr : v = r
    · simp [hvr, hne]
    · by_cases hva : v = a
      · simp [hva, hne.symm]
      · simp [hvr, hva]
  · rw [size_toggle_of_member hstays, size_toggle_of_not_member ha, Nat.add_sub_cancel]
  · exact hexact.alike (exact_ofMembers G _) rfl
  · calc ((S.toggle a).toggle r).edgesInside
        = S.edgesInside + S.marginal a + (S.toggle a).marginal r := by
          rw [toggle_edgesInside, toggle_edgesInside]
      _ = S.edgesInside + S.marginal a + S.marginal r - if G.hasEdge a r then 1 else 0 := by
          rw [hS.marginal_of_entered hG ha hr, add_sub_assoc]
  · exact ⟨_, mutateAll_two S r a, hS.alike_toggle_comm hG a r⟩
  · exact ⟨_, mutateAll_two S a r, hexact.alike hexact rfl⟩

end VertexSubset

open VertexSubset

/-- **An exchange is two moves in either order.** It is made just when the vertex to be added is no
member and the one to be removed is one, both in range; so never of a vertex for itself. It
then keeps the size and leaves exact caches, with the score that both marginals give, less one if
the vertices are adjacent. An exchange that is refused changes nothing. -/
theorem exchange_is_two_moves {n : Nat} {G : Graph n} (hG : G.Constructed) {S : VertexSubset G}
    (hS : S.Evolved) :
    (∀ add remove : Nat, (∃ S', S.swap add remove = .ok S') ↔
      ∃ a r : Fin n, add = a.val ∧ remove = r.val ∧ a ∉ S.members ∧ r ∈ S.members) ∧
    (∀ v : Nat, ∃ e, S.swap v v = .error e) ∧
    (∀ (a r : Fin n) (S' : VertexSubset G), S.swap a r = .ok S' → Exchanged S a r S') ∧
    ∀ (add remove : Nat) (e : Error), S.swap add remove = .error e →
      S.call (.swap add remove) = S := by
  have hexact : S.Exact := hS.exact hG.simple
  have hiff : ∀ add remove : Nat, (∃ S', S.swap add remove = .ok S') ↔
      ∃ a r : Fin n, add = a.val ∧ remove = r.val ∧ a ∉ S.members ∧ r ∈ S.members := by
    intro add remove
    simp only [swap_eq_ok_iff, mem_members hexact, Bool.not_eq_true]
    constructor
    · rintro ⟨-, a, r, hadd, hremove, ha, hr, -⟩
      exact ⟨a, r, hadd, hremove, ha, hr⟩
    · rintro ⟨a, r, hadd, hremove, ha, hr⟩
      exact ⟨_, a, r, hadd, hremove, ha, hr, rfl⟩
  refine ⟨hiff, ?_, ?_, fun add remove e herror => call_swap_of_error herror⟩
  · intro v
    cases hswap : S.swap v v with
    | error e => exact ⟨e, rfl⟩
    | ok S' =>
        obtain ⟨a, r, ha, hr, hout, hin⟩ := (hiff v v).mp ⟨S', hswap⟩
        exact absurd (Fin.ext (ha.symm.trans hr) ▸ hin) hout
  · intro a r S' hswap
    obtain ⟨a', r', ha, hr, hout, hin, rfl⟩ := swap_eq_ok_iff.mp hswap
    cases Fin.ext ha
    cases Fin.ext hr
    exact hexact.exchanged hG.simple hout hin

/-- On a path, a vertex enters beside the member that it takes the place of. The score falls by one,
though the marginals add up to zero. -/
theorem exchange_is_two_moves_pathStart :
    ∃ S' T, pathStart.Evolved ∧ pathStart.swap 2 1 = .ok S' ∧ S'.members = [0, 2] ∧
      pathStart.marginal 2 + pathStart.marginal 1 = 0 ∧
      Tracker.score S' = Tracker.score pathStart - 1 ∧
      Tracker.mutateAll pathStart [1, 2] = .ok ([2, 1], T) ∧ Alike S' T ∧
      (∃ e, pathStart.swap 1 1 = .error e) := by
  have hlist : ofList (Graph.path 4) [0, 1] = .ok pathStart := by decide +kernel
  have hevolved : pathStart.Evolved := .fresh (.ofList hlist)
  obtain ⟨hiff, hself, hexchanged, -⟩ := exchange_is_two_moves (.path 4) hevolved
  obtain ⟨S', hswap⟩ := (hiff 2 1).mpr ⟨2, 1, rfl, rfl, by decide +kernel, by decide +kernel⟩
  have h := hexchanged 2 1 S' hswap
  have hmarginals : pathStart.marginal 2 + pathStart.marginal 1 = 0 := by decide +kernel
  have hscore : Tracker.score S' = Tracker.score pathStart - 1 := by
    rw [h.score, add_assoc, hmarginals, add_zero, if_pos (by decide +kernel)]
  obtain ⟨T, hmoves, halike⟩ := h.leaves_first
  refine ⟨S', T, hevolved, hswap, ?_, hmarginals, hscore, hmoves, halike, hself 1⟩
  rw [halike.members]
  cases hmoves
  decide +kernel

end Winners

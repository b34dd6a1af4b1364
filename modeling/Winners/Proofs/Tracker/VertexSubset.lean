import Winners.Proofs.Graph.Edges
import Winners.Proofs.Sequence
import Winners.Proofs.Tracker.History
import Winners.Proofs.Tracker.Sides

set_option autoImplicit false

/-! # The caches of vertex subsets are exact

`Exact` says what the caches of a vertex subset hold: the degrees into the set, the number of edges
inside it, and its members and other vertices in the two arrays. Building a subset makes it
exact and toggling a vertex keeps it so (`Exact.toggle`), whichever way the vertex goes. A call
of `mutate` toggles once, an exchange twice, and a refused call not at all, so the caches are exact
after any calls (`subset_caches_exact`).
-/

namespace Winners

namespace VertexSubset

open Counting Patch

variable {n : Nat} {G : Graph n}

/-! ## Edges inside a set -/

/-- Flipping the membership of a vertex gains or loses one edge for each neighbour in the set. -/
theorem edgesWithin_flip (hG : G.Simple) (member : Vector Bool n) (v : Fin n) :
    (G.edgesWithin (flipAt member v).get : Int) = G.edgesWithin member.get +
      (if member.get v then -((G.neighbors.get v).countP member.get : Int)
        else (G.neighbors.get v).countP member.get) := by
  rw [flipAt_val]
  have hchange := Graph.countP_edges_change hG v
    (p := fun u w => member.get u && member.get w)
    (q := fun u w => (member.set v (!member.get v) v.isLt).get u &&
      (member.set v (!member.get v) v.isLt).get w)
    (fun u w => Bool.and_comm _ _) (fun u w => Bool.and_comm _ _)
    (fun u w hu hw => by rw [get_set_ne _ hu, get_set_ne _ hw])
  have hnew : (G.neighbors.get v).countP (fun w =>
      (member.set v (!member.get v) v.isLt).get v && (member.set v (!member.get v) v.isLt).get w) =
        if member.get v then 0 else (G.neighbors.get v).countP member.get := by
    -- the neighbours of `v` are other vertices, so their membership has not changed
    rw [List.countP_congr (q := fun w => !member.get v && member.get w)]
    · rw [countP_and]
      cases member.get v <;> rfl
    · intro w hw
      rw [get_set_self, get_set_ne _ (hG.ne_of_adjacent hw).symm]
  rw [hnew, countP_and] at hchange
  refine hchange.trans ?_
  split <;> simp [Graph.edgesWithin]

/-! ## Toggling a vertex -/

/-- **The invariant of the caches.** -/
structure Exact (S : VertexSubset G) : Prop where
  degrees : ∀ v, S.internalDegree.get v = (G.neighbors.get v).countP S.member.get
  edges : S.edgesInside = G.edgesWithin S.member.get
  sides : S.sides.Holds fun v => S.member.get v = true

theorem exact_ofMembers (G : Graph n) (member : Vector Bool n) : (ofMembers G member).Exact where
  degrees := get_ofFn _
  edges := rfl
  sides := Sides.holds_ofMembers member

theorem toggle_member (S : VertexSubset G) (v : Fin n) :
    (S.toggle v).member = flipAt S.member v := by
  rw [flipAt_val, toggle]
  split
  · next h => rw [h]; rfl
  · next h => rw [Bool.eq_false_iff.mpr h]; rfl

theorem toggle_edgesInside (S : VertexSubset G) (v : Fin n) :
    (S.toggle v).edgesInside = S.edgesInside + S.marginal v := by
  rw [toggle, marginal]
  split
  · exact Int.sub_eq_add_neg
  · rfl

theorem toggle_internalDegree (S : VertexSubset G) (v : Fin n) :
    (S.toggle v).internalDegree = adjustDegrees (if S.member.get v then (· - 1) else (· + 1))
      (G.neighbors.get v) S.internalDegree := by
  rw [toggle]
  split <;> rfl

theorem toggle_sides (S : VertexSubset G) (v : Fin n) :
    (S.toggle v).sides = S.sides.cross v (S.member.get v) := by
  rw [toggle]
  split
  · next h => rw [h]
  · next h => rw [Bool.eq_false_iff.mpr h]

/-- Toggling a vertex moves it to the other array, whatever the graph is. -/
theorem sides_toggle {S : VertexSubset G} (h : S.sides.Holds fun u => S.member.get u = true)
    (v : Fin n) : (S.toggle v).sides.Holds fun u => (S.toggle v).member.get u = true := by
  rw [toggle_sides, toggle_member, flipAt_val]
  cases hv : S.member.get v with
  | true =>
      refine (h.leave hv).congr ?_
      intro u
      rw [get_set]
      by_cases hu : u = v <;> simp [hu]
  | false =>
      refine (h.enter (by simp [hv])).congr ?_
      intro u
      rw [get_set]
      by_cases hu : u = v <;> simp [hu]

theorem get_adjustDegrees (change : Nat → Nat) {vertices : List (Fin n)}
    (distinct : vertices.Nodup) (degrees : Vector Nat n) (u : Fin n) :
    (adjustDegrees change vertices degrees).get u =
      if u ∈ vertices then change (degrees.get u) else degrees.get u :=
  get_patch (fun _ => change) distinct degrees u

namespace Exact

variable {S : VertexSubset G}

theorem marginal_eq (h : S.Exact) (v : Fin n) :
    S.marginal v = if S.member.get v then -((G.neighbors.get v).countP S.member.get : Int)
      else (G.neighbors.get v).countP S.member.get := by
  rw [marginal, h.degrees]

theorem degrees_toggle (hG : G.Simple) (h : S.Exact) (v u : Fin n) :
    (S.toggle v).internalDegree.get u = (G.neighbors.get u).countP (S.toggle v).member.get := by
  -- the loop runs over the neighbours of `v`, the count over those of `u`
  have hmem : v ∈ G.neighbors.get u ↔ u ∈ G.neighbors.get v := hG.adjacent_comm
  have hchange := countP_change (hG.nodup u) (x := v) (p := S.member.get)
    (q := (S.member.set v (!S.member.get v) v.isLt).get) fun w hw => get_set_ne _ hw _
  rw [toggle_member, toggle_internalDegree, get_adjustDegrees _ (hG.nodup v), flipAt_val, h.degrees]
  simp only [get_set_self, hmem] at hchange
  by_cases hu : u ∈ G.neighbors.get v
  · rw [if_pos hu]
    cases hv : S.member.get v with
    | true =>
        simp only [hv, hu, true_and, if_true, Bool.not_true, Bool.false_eq_true, if_false]
          at hchange ⊢
        omega
    | false =>
        simp only [hv, hu, true_and, if_true, Bool.not_false, Bool.false_eq_true, if_false]
          at hchange ⊢
        omega
  · rw [if_neg hu]
    simp only [hu, false_and, if_false] at hchange
    exact hchange.symm

/-- **Toggling a vertex keeps the caches exact.** -/
theorem toggle (hG : G.Simple) (h : S.Exact) (v : Fin n) : (S.toggle v).Exact where
  degrees := h.degrees_toggle hG v
  edges := by
    rw [toggle_edgesInside, toggle_member, edgesWithin_flip hG, h.edges, h.marginal_eq]
  sides := sides_toggle h.sides v

/-- While a member leaves, each count is above zero when it is about to be decremented. -/
theorem degree_pos (hG : G.Simple) (h : S.Exact) {v : Fin n} (hv : S.member.get v = true)
    {before after : List (Fin n)} {u : Fin n} (hsplit : G.neighbors.get v = before ++ u :: after) :
    0 < (adjustDegrees (· - 1) before S.internalDegree).get u := by
  have hnodup := hG.nodup v
  rw [hsplit] at hnodup
  obtain ⟨hbefore, -, hapart⟩ := List.nodup_append.mp hnodup
  -- the loop has not met `u` before, so its count still includes `v`
  have hu : u ∉ before := fun hmem => hapart u hmem u List.mem_cons_self rfl
  have hadj : v ∈ G.neighbors.get u := by
    apply hG.adjacent_comm.mp
    show u ∈ G.neighbors.get v
    rw [hsplit]
    exact List.mem_append_right before List.mem_cons_self
  rw [get_adjustDegrees _ hbefore, if_neg hu, h.degrees]
  exact List.countP_pos_iff.mpr ⟨v, hadj, hv⟩

end Exact

/-! ## Calls -/

/-- A call that changes a subset, by bare numbers. -/
inductive Call
  | mutate (v : Nat)
  | swap (add remove : Nat)
deriving DecidableEq, Repr

/-- The subset after a call. -/
def call (S : VertexSubset G) : Call → VertexSubset G
  | .mutate v => Tracker.attempt S v
  | .swap add remove => (S.exchange add remove).2

/-- What a call does to the set itself. -/
def Call.act (member : Vector Bool n) : Call → Vector Bool n
  | .mutate v => flipAt member v
  | .swap add remove =>
      if member[add]? = some false ∧ member[remove]? = some true then
        flipAt (flipAt member add) remove
      else member

/-- The vertices that a call toggles, each with the subset in which it does so. An exchange
toggles the vertex that leaves when the other one has entered. -/
inductive Toggles (S : VertexSubset G) : Call → VertexSubset G → Fin n → Prop
  | mutate (v : Fin n) : Toggles S (.mutate v) S v
  | enter (a r : Fin n) {S' : VertexSubset G} (h : S.swap a r = .ok S') :
      Toggles S (.swap a r) S a
  | leave (a r : Fin n) {S' : VertexSubset G} (h : S.swap a r = .ok S') :
      Toggles S (.swap a r) (S.toggle a) r

theorem Toggles.exact (hG : G.Simple) {S T : VertexSubset G} {c : Call} {v : Fin n}
    (h : Toggles S c T v) (hS : S.Exact) : T.Exact := by
  cases h with
  | mutate => exact hS
  | enter => exact hS
  | leave a => exact hS.toggle hG a

theorem mutate_of_lt (S : VertexSubset G) {i : Nat} (h : i < n) :
    Tracker.mutate S i = .ok (i, S.toggle ⟨i, h⟩) :=
  Tracker.mutate_eq_ok_iff.mpr (Tracker.applyAt_of_lt toggle S h)

theorem mutate_of_le (S : VertexSubset G) {i : Nat} (h : n ≤ i) :
    Tracker.mutate S i = .error (.indexOutOfRange i n) :=
  Tracker.mutate_eq_error_iff.mpr (Tracker.applyAt_of_le toggle S h)

theorem marginal_val (S : VertexSubset G) (v : Fin n) :
    Tracker.marginal S v.val = .ok (S.marginal v) :=
  bind_checkIndex_val v _

/-- **What an exchange does.** It toggles both vertices, when one of them can enter and the other one
leave; if not, it is refused and changes nothing. -/
theorem exchange_cases (S : VertexSubset G) (add remove : Nat) :
    (∃ a r : Fin n, add = a.val ∧ remove = r.val ∧ S.member.get a = false ∧
      S.member.get r = true ∧ S.exchange add remove = (.ok (), (S.toggle a).toggle r)) ∨
    ∃ e, S.exchange add remove = (.error e, S) := by
  unfold exchange
  split
  · exact .inr ⟨_, rfl⟩
  · next a ha =>
      split
      · exact .inr ⟨_, rfl⟩
      · next hma =>
          split
          · exact .inr ⟨_, rfl⟩
          · next r hr =>
              split
              · next hmr =>
                  exact .inl ⟨a, r, checkIndex_eq_ok_iff.mp ha, checkIndex_eq_ok_iff.mp hr,
                    Bool.not_eq_true _ ▸ hma, hmr, rfl⟩
              · exact .inr ⟨_, rfl⟩

theorem exchange_val {S : VertexSubset G} {a r : Fin n} (ha : S.member.get a = false)
    (hr : S.member.get r = true) :
    S.exchange a.val r.val = (.ok (), (S.toggle a).toggle r) := by
  simp only [exchange, checkIndex_val, ha, hr, Bool.false_eq_true, if_false, if_true]

/-- An exchange succeeds just when one vertex can enter and the other one leave, and then it
toggles both. -/
theorem swap_eq_ok_iff {S S' : VertexSubset G} {add remove : Nat} :
    S.swap add remove = .ok S' ↔ ∃ a r : Fin n, add = a.val ∧ remove = r.val ∧
      S.member.get a = false ∧ S.member.get r = true ∧ (S.toggle a).toggle r = S' := by
  constructor
  · intro h
    rcases S.exchange_cases add remove with ⟨a, r, hadd, hremove, ha, hr, hmade⟩ | ⟨e, hrefused⟩
    · rw [swap, hmade] at h
      exact ⟨a, r, hadd, hremove, ha, hr, Except.ok.inj h⟩
    · rw [swap, hrefused] at h
      cases h
  · rintro ⟨a, r, rfl, rfl, ha, hr, rfl⟩
    rw [swap, exchange_val ha hr]
    rfl

theorem call_swap_of_ok {S S' : VertexSubset G} {add remove : Nat}
    (h : S.swap add remove = .ok S') : S.call (.swap add remove) = S' := by
  obtain ⟨a, r, rfl, rfl, ha, hr, rfl⟩ := swap_eq_ok_iff.mp h
  rw [call, exchange_val ha hr]

theorem call_swap_of_error {S : VertexSubset G} {add remove : Nat} {e : Error}
    (h : S.swap add remove = .error e) : S.call (.swap add remove) = S := by
  rcases S.exchange_cases add remove with ⟨a, r, -, -, -, -, hmade⟩ | ⟨e', hrefused⟩
  · rw [swap, hmade] at h
    cases h
  · rw [call, hrefused]

/-- What toggling keeps, calls keep. -/
theorem call_kept {S : VertexSubset G} {P : VertexSubset G → Prop}
    (htoggle : ∀ S v, P S → P (S.toggle v)) (hS : P S) (c : Call) : P (S.call c) := by
  cases c with
  | mutate i =>
      show P (Tracker.attempt S i)
      by_cases hi : i < n
      · rw [Tracker.attempt_of_ok (mutate_of_lt S hi)]
        exact htoggle S _ hS
      · rw [Tracker.attempt_of_error (mutate_of_le S (Nat.not_lt.mp hi))]
        exact hS
  | swap add remove =>
      cases hswap : S.swap add remove with
      | ok S' =>
          rw [call_swap_of_ok hswap]
          obtain ⟨a, r, -, -, -, -, rfl⟩ := swap_eq_ok_iff.mp hswap
          exact htoggle _ r (htoggle S a hS)
      | error e =>
          rw [call_swap_of_error hswap]
          exact hS

theorem call_member (S : VertexSubset G) (c : Call) : (S.call c).member = c.act S.member := by
  cases c with
  | mutate i =>
      show (Tracker.attempt S i).member = flipAt S.member i
      by_cases hi : i < n
      · rw [Tracker.attempt_of_ok (mutate_of_lt S hi)]
        exact toggle_member S _
      · have hle := Nat.not_lt.mp hi
        rw [Tracker.attempt_of_error (mutate_of_le S hle), flipAt_of_le _ hle]
  | swap add remove =>
      cases hswap : S.swap add remove with
      | ok S' =>
          rw [call_swap_of_ok hswap]
          obtain ⟨a, r, rfl, rfl, ha, hr, rfl⟩ := swap_eq_ok_iff.mp hswap
          rw [toggle_member, toggle_member]
          have hcan : S.member[a.val]? = some false ∧ S.member[r.val]? = some true :=
            ⟨getElem?_eq_some_iff_get.mpr ⟨a, rfl, ha⟩, getElem?_eq_some_iff_get.mpr ⟨r, rfl, hr⟩⟩
          exact (if_pos hcan).symm
      | error e =>
          rw [call_swap_of_error hswap]
          -- a swap that the set allows would have succeeded
          have hcannot : ¬(S.member[add]? = some false ∧ S.member[remove]? = some true) := by
            rintro ⟨hadd, hremove⟩
            obtain ⟨a, rfl, ha⟩ := getElem?_eq_some_iff_get.mp hadd
            obtain ⟨r, rfl, hr⟩ := getElem?_eq_some_iff_get.mp hremove
            rw [swap_eq_ok_iff.mpr ⟨a, r, rfl, rfl, ha, hr, rfl⟩] at hswap
            cases hswap
          exact (if_neg hcannot).symm

/-- A call acts on the set, and the caches stay exact. -/
theorem call_spec (hG : G.Simple) {S : VertexSubset G} (h : S.Exact) (c : Call) :
    (S.call c).Exact ∧ (S.call c).member = c.act S.member :=
  ⟨call_kept (fun _ v hS => hS.toggle hG v) h c, call_member S c⟩

theorem calls_spec (hG : G.Simple) {S : VertexSubset G} (h : S.Exact) (calls : List Call) :
    (calls.foldl call S).Exact ∧ (calls.foldl call S).member = calls.foldl Call.act S.member := by
  induction calls generalizing S with
  | nil => exact ⟨h, rfl⟩
  | cons c calls ih =>
      obtain ⟨hexact, hmember⟩ := call_spec hG h c
      rw [List.foldl_cons, List.foldl_cons, ← hmember]
      exact ih hexact

/-- The subsets that can be made. -/
inductive Fresh : VertexSubset G → Prop
  | empty : Fresh (empty G)
  | ofList {vertices : List Nat} {S : VertexSubset G} (h : ofList G vertices = .ok S) : Fresh S
  | random {size : Nat} {choose : Sampler.IndexChoice} {sampler : Sampler (VertexSubset G)}
      (h : random G size choose = .ok sampler) (draws : Draws) : Fresh (sampler.run draws).1

theorem Fresh.exact {S : VertexSubset G} (h : S.Fresh) : S.Exact := by
  cases h with
  | empty => exact exact_ofMembers G _
  | @ofList vertices _ h =>
      obtain ⟨vertices', -, h⟩ := bind_eq_ok.mp h
      cases h
      exact exact_ofMembers G _
  | random h draws =>
      unfold VertexSubset.random at h
      split at h
      · cases h
      · cases h
        exact exact_ofMembers G _

/-- The caches of a reachable subset are exact. -/
theorem exact_of_reachable (hG : G.Simple) {S : VertexSubset G}
    (h : Tracker.Reachable VertexSubset.Fresh S) : S.Exact := by
  obtain ⟨S₀, moves, h₀, rfl⟩ := h
  have hcalls : Tracker.replay S₀ moves = (moves.map Call.mutate).foldl call S₀ := by
    rw [List.foldl_map]
    rfl
  rw [hcalls]
  exact (calls_spec hG h₀.exact _).1

theorem mem_members {S : VertexSubset G} (h : S.Exact) (v : Fin n) :
    v ∈ S.members ↔ S.member.get v = true := by
  rw [members, mem_ascending, Array.mem_toList_iff]
  exact h.sides.inside.mem_iff

end VertexSubset

open VertexSubset Patch

/-- **The caches of a vertex subset are exact after any calls.** A call of `mutate` flips the
membership of a vertex and an exchange that of two. Afterwards the degrees count the neighbours in
the set, the score is the number of edges inside it, and a marginal is what flipping a vertex
changes this number by. No call decrements a degree that is zero. -/
theorem subset_caches_exact {n : Nat} {G : Graph n} (hG : G.Constructed) {S₀ : VertexSubset G}
    (h₀ : S₀.Fresh) (calls : List Call) :
    let S := calls.foldl call S₀
    S.member = calls.foldl Call.act S₀.member ∧
    (∀ v, v ∈ S.members ↔ S.member.get v = true) ∧
    (∀ v : Fin n, S.internalDegreeAt v = .ok ((G.neighbors.get v).countP S.member.get)) ∧
    Tracker.score S = G.edgesWithin S.member.get ∧
    (∀ v : Fin n, Tracker.marginal S v.val =
      .ok (G.edgesWithin (flipAt S.member v).get - G.edgesWithin S.member.get)) ∧
    (∀ c T v, Toggles S c T v → T.member.get v = true →
      ∀ before u after, G.neighbors.get v = before ++ u :: after →
        0 < (adjustDegrees (· - 1) before T.internalDegree).get u) := by
  intro S
  obtain ⟨hS, hmember⟩ : S.Exact ∧ S.member = calls.foldl Call.act S₀.member :=
    calls_spec hG.simple h₀.exact calls
  refine ⟨hmember, mem_members hS, ?_, hS.edges, ?_, ?_⟩
  · intro v
    rw [internalDegreeAt, checkIndex_val]
    exact congrArg Except.ok (hS.degrees v)
  · intro v
    rw [marginal_val, edgesWithin_flip hG.simple, ← hS.marginal_eq]
    congr 1
    exact (add_sub_cancel_left _ _).symm
  · intro c T v htoggles hv before u after hsplit
    exact (htoggles.exact hG.simple hS).degree_pos hG.simple hv hsplit

/-- The first two vertices of a path on four. -/
def pathStart : VertexSubset (Graph.path 4) := ofVertices (Graph.path 4) [0, 1]

/-- A vertex enters, a member is exchanged, and two exchanges and a toggle are refused. -/
theorem subset_caches_exact_pathStart :
    (Graph.path 4).Constructed ∧ pathStart.Fresh ∧
    (let S := [.mutate 2, .swap 3 0, .swap 1 0, .swap 0 0, .mutate 9].foldl call pathStart;
      S.member.toList = [false, true, true, true] ∧ S.internalDegreeAt 2 = .ok 2 ∧
        Tracker.score S = 2 ∧ Tracker.marginal S 2 = .ok (-2) ∧
        0 < (adjustDegrees (· - 1) [1] S.internalDegree).get 3) := by
  have hlist : ofList (Graph.path 4) [0, 1] = .ok pathStart := by decide +kernel
  have hfresh : pathStart.Fresh := .ofList hlist
  obtain ⟨hmember, -, hdegree, hscore, hmarginal, hpos⟩ := subset_caches_exact (.path 4) hfresh
    [.mutate 2, .swap 3 0, .swap 1 0, .swap 0 0, .mutate 9]
  refine ⟨.path 4, hfresh, ?_, ?_, ?_, ?_, ?_⟩
  · rw [hmember]
    decide +kernel
  · exact (hdegree 2).trans (by decide +kernel)
  · exact hscore.trans (by decide +kernel)
  · exact (hmarginal 2).trans (by decide +kernel)
  · exact hpos (.mutate 2) _ 2 (.mutate 2) (by decide +kernel) [1] 3 [] (by decide +kernel)

end Winners

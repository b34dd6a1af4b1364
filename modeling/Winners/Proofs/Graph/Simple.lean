import Winners.Graph.Matrix
import Winners.Graph.Random
import Winners.Proofs.Draws.Coins
import Winners.Proofs.Patch
import Mathlib.Data.List.FinRange
import Mathlib.Data.List.Pairwise

set_option autoImplicit false

/-! # Constructed graphs are simple

`Graph.Simple` is the invariant of graphs: neighbour lists are strictly ascending, no vertex is
its own neighbour, and adjacency is symmetric. `Graph.Constructed` lists the ways to make a
graph, and `Constructed.simple` proves the invariant for every one of them.
-/

namespace Winners

/-! ## Ascending lists -/

section

variable {n : Nat}

theorem mem_insertAscending {x y : Fin n} {xs : List (Fin n)} :
    y ∈ insertAscending x xs ↔ y = x ∨ y ∈ xs := by
  induction xs with
  | nil => simp [insertAscending]
  | cons z zs ih =>
      unfold insertAscending
      split
      · exact List.mem_cons
      · split
        · next h =>
            subst h
            simp
        · rw [List.mem_cons, ih, List.mem_cons]
          tauto

theorem pairwise_insertAscending (x : Fin n) {xs : List (Fin n)} (h : xs.Pairwise (· < ·)) :
    (insertAscending x xs).Pairwise (· < ·) := by
  induction xs with
  | nil => exact List.pairwise_singleton _ x
  | cons z zs ih =>
      obtain ⟨hz, hzs⟩ := List.pairwise_cons.mp h
      unfold insertAscending
      split
      · next hx =>
          refine List.pairwise_cons.mpr ⟨?_, h⟩
          intro y hy
          rcases List.mem_cons.mp hy with rfl | hy
          · exact hx
          · exact lt_trans hx (hz y hy)
      · next hx =>
          split
          · exact h
          · next hne =>
              refine List.pairwise_cons.mpr ⟨?_, ih hzs⟩
              intro y hy
              rcases mem_insertAscending.mp hy with rfl | hy
              · exact lt_of_le_of_ne (not_lt.mp hx) (Ne.symm hne)
              · exact hz y hy

theorem mem_ascending {y : Fin n} {xs : List (Fin n)} : y ∈ ascending xs ↔ y ∈ xs := by
  induction xs with
  | nil => exact Iff.rfl
  | cons x xs ih =>
      show y ∈ insertAscending x (ascending xs) ↔ _
      rw [mem_insertAscending, ih, List.mem_cons]

theorem pairwise_ascending (xs : List (Fin n)) : (ascending xs).Pairwise (· < ·) := by
  induction xs with
  | nil => exact List.Pairwise.nil
  | cons x xs ih => exact pairwise_insertAscending x ih

/-- Without repetitions there is nothing to leave out. -/
theorem perm_ascending {xs : List (Fin n)} (distinct : xs.Nodup) : (ascending xs).Perm xs :=
  (List.perm_ext_iff_of_nodup ((pairwise_ascending xs).imp ne_of_lt) distinct).mpr fun _ =>
    mem_ascending

/-- Strictly ascending lists are told by their entries. -/
theorem eq_of_ascending {xs ys : List (Fin n)} (hxs : xs.Pairwise (· < ·))
    (hys : ys.Pairwise (· < ·)) (h : ∀ v, v ∈ xs ↔ v ∈ ys) : xs = ys := by
  have hperm : xs.Perm ys :=
    (List.perm_ext_iff_of_nodup (hxs.imp ne_of_lt) (hys.imp ne_of_lt)).mpr h
  exact hperm.eq_of_pairwise (fun u v _ _ huv hvu => absurd huv (lt_asymm hvu)) hxs hys

theorem ascending_eq_self {xs : List (Fin n)} (h : xs.Pairwise (· < ·)) : ascending xs = xs :=
  eq_of_ascending (pairwise_ascending xs) h fun _ => mem_ascending

end

namespace Graph

variable {n : Nat}

/-! ## The invariant -/

/-- **The invariant of graphs.** -/
structure Simple (G : Graph n) : Prop where
  ascending : ∀ v, (G.neighbors.get v).Pairwise (· < ·)
  loopless : ∀ v, ¬G.Adjacent v v
  symm : ∀ {u v}, G.Adjacent u v → G.Adjacent v u

namespace Simple

variable {G : Graph n}

theorem nodup (hG : G.Simple) (v : Fin n) : (G.neighbors.get v).Nodup :=
  (hG.ascending v).imp ne_of_lt

theorem adjacent_comm (hG : G.Simple) {u v : Fin n} : G.Adjacent u v ↔ G.Adjacent v u :=
  ⟨hG.symm, hG.symm⟩

theorem ne_of_adjacent (hG : G.Simple) {u v : Fin n} (h : G.Adjacent u v) : u ≠ v := by
  rintro rfl
  exact hG.loopless u h

end Simple

/-! ## Graphs from edges -/

theorem simple_empty (n : Nat) : (Graph.empty n).Simple := by
  have hrow : ∀ v, (Graph.empty n).neighbors.get v = [] := fun v => Patch.get_replicate _ v
  refine ⟨?_, ?_, ?_⟩
  · intro v
    rw [hrow]
    exact List.Pairwise.nil
  · intro v h
    rw [Adjacent, hrow] at h
    exact List.not_mem_nil h
  · intro u v h
    rw [Adjacent, hrow] at h
    exact absurd h List.not_mem_nil

theorem neighbors_ofLists (lists : Vector (List (Fin n)) n) (v : Fin n) :
    (ofLists lists).neighbors.get v = ascending (lists.get v) :=
  Patch.get_map ascending lists v

theorem mem_pushEnds {lists : Vector (List (Fin n)) n} {e : Fin n × Fin n} (h : e.1 ≠ e.2)
    {u v : Fin n} : v ∈ (pushEnds lists e).get u ↔
      v ∈ lists.get u ∨ (u, v) = e ∨ (v, u) = e := by
  obtain ⟨a, b⟩ := e
  have hne : a ≠ b := h
  simp only [pushEnds, Patch.get_set, Prod.mk.injEq]
  by_cases hb : u = b
  · subst hb
    simp [hne.symm]
  · by_cases ha : u = a
    · subst ha
      simp [hb]
    · simp [ha, hb]

/-- A list holds the ends of the edges that its vertex is the other end of. -/
theorem mem_foldl_pushEnds {pairs : List (Fin n × Fin n)} (h : ∀ e ∈ pairs, e.1 ≠ e.2)
    (lists : Vector (List (Fin n)) n) {u v : Fin n} :
    v ∈ (pairs.foldl pushEnds lists).get u ↔
      v ∈ lists.get u ∨ (u, v) ∈ pairs ∨ (v, u) ∈ pairs := by
  induction pairs generalizing lists with
  | nil => simp
  | cons e pairs ih =>
      obtain ⟨he, hpairs⟩ := List.forall_mem_cons.mp h
      rw [List.foldl_cons, ih hpairs, mem_pushEnds he, List.mem_cons, List.mem_cons]
      tauto

theorem adjacent_ofPairs {pairs : List (Fin n × Fin n)} (h : ∀ e ∈ pairs, e.1 ≠ e.2)
    {u v : Fin n} : (ofPairs pairs).Adjacent u v ↔ (u, v) ∈ pairs ∨ (v, u) ∈ pairs := by
  rw [Adjacent, ofPairs, neighbors_ofLists, mem_ascending, mem_foldl_pushEnds h,
    Patch.get_replicate]
  simp

/-- Edges whose ends differ make a simple graph. -/
theorem simple_ofPairs {pairs : List (Fin n × Fin n)} (h : ∀ e ∈ pairs, e.1 ≠ e.2) :
    (ofPairs pairs).Simple := by
  refine ⟨?_, ?_, ?_⟩
  · intro v
    rw [ofPairs, neighbors_ofLists]
    exact pairwise_ascending _
  · intro v hv
    rcases (adjacent_ofPairs h).mp hv with hv | hv
    · exact h _ hv rfl
    · exact h _ hv rfl
  · intro u v huv
    rw [adjacent_ofPairs h] at huv ⊢
    exact huv.symm

/-- The ends of an edge as bare numbers. -/
def ends (e : Fin n × Fin n) : Nat × Nat := (e.1.val, e.2.val)

/-- An edge is accepted if its ends are different vertices. -/
theorem checkEdge_eq_ok {p : Nat × Nat} {e : Fin n × Fin n} :
    checkEdge n p = .ok e ↔ p = ends e ∧ e.1 ≠ e.2 := by
  constructor
  · intro h
    obtain ⟨u, hu, h⟩ := bind_eq_ok.mp h
    obtain ⟨v, hv, h⟩ := bind_eq_ok.mp h
    split at h
    · cases h
    · next hne =>
        cases h
        exact ⟨Prod.ext (checkIndex_eq_ok_iff.mp hu) (checkIndex_eq_ok_iff.mp hv), hne⟩
  · rintro ⟨rfl, hne⟩
    refine bind_eq_ok.mpr ⟨e.1, checkIndex_val e.1, ?_⟩
    refine bind_eq_ok.mpr ⟨e.2, checkIndex_val e.2, ?_⟩
    rw [if_neg hne]
    rfl

theorem mapM_checkEdge_eq_ok {list : List (Nat × Nat)} {pairs : List (Fin n × Fin n)} :
    list.mapM (checkEdge n) = .ok pairs ↔ list = pairs.map ends ∧ ∀ e ∈ pairs, e.1 ≠ e.2 := by
  rw [mapM_eq_ok]
  induction pairs generalizing list with
  | nil => simp
  | cons e pairs ih =>
      rw [List.forall₂_cons_right_iff, List.map_cons, List.forall_mem_cons]
      constructor
      · rintro ⟨p, rest, hp, hrest, rfl⟩
        obtain ⟨rfl, hne⟩ := checkEdge_eq_ok.mp hp
        obtain ⟨rfl, hpairs⟩ := ih.mp hrest
        exact ⟨rfl, hne, hpairs⟩
      · rintro ⟨rfl, hne, hpairs⟩
        exact ⟨ends e, _, checkEdge_eq_ok.mpr ⟨rfl, hne⟩, ih.mpr ⟨rfl, hpairs⟩, rfl⟩

theorem ofEdges_eq_ok {list : List (Nat × Nat)} {G : Graph n} : ofEdges n list = .ok G ↔
    ∃ pairs : List (Fin n × Fin n), list = pairs.map ends ∧ (∀ e ∈ pairs, e.1 ≠ e.2) ∧
      ofPairs pairs = G := by
  constructor
  · intro h
    obtain ⟨pairs, hpairs, h⟩ := bind_eq_ok.mp h
    cases h
    obtain ⟨hlist, hne⟩ := mapM_checkEdge_eq_ok.mp hpairs
    exact ⟨pairs, hlist, hne, rfl⟩
  · rintro ⟨pairs, hlist, hne, rfl⟩
    exact bind_eq_ok.mpr ⟨pairs, mapM_checkEdge_eq_ok.mpr ⟨hlist, hne⟩, rfl⟩

theorem simple_ofEdges {edges : List (Nat × Nat)} {G : Graph n} (h : ofEdges n edges = .ok G) :
    G.Simple := by
  obtain ⟨pairs, -, hne, rfl⟩ := ofEdges_eq_ok.mp h
  exact simple_ofPairs hne

theorem simple_path (n : Nat) : (path n).Simple := by
  apply simple_ofPairs
  intro e he
  obtain ⟨v, _, hv⟩ := List.mem_filterMap.mp he
  by_cases h : v.val = 0
  · simp [h] at hv
  · simp only [h, if_false, Option.some.injEq] at hv
    rw [← hv]
    intro heq
    have := congrArg Fin.val heq
    simp only at this
    omega

theorem simple_complete (n : Nat) : (complete n).Simple := by
  have hrow : ∀ v, (complete n).neighbors.get v = (List.finRange n).filter (· ≠ v) := by
    intro v
    rw [complete, neighbors_ofLists, Patch.get_ofFn]
    exact ascending_eq_self ((List.pairwise_lt_finRange n).filter _)
  have hadj : ∀ u v, (complete n).Adjacent u v ↔ v ≠ u := by
    intro u v
    rw [Adjacent, hrow]
    simp
  refine ⟨?_, ?_, ?_⟩
  · intro v
    rw [hrow]
    exact (List.pairwise_lt_finRange n).filter _
  · intro v h
    exact (hadj v v).mp h rfl
  · intro u v h
    exact (hadj v u).mpr ((hadj u v).mp h).symm

/-! ## Random graphs -/

theorem mem_drop_finRange {k : Nat} {v : Fin n} : v ∈ (List.finRange n).drop k ↔ k ≤ v.val := by
  constructor
  · intro hv
    obtain ⟨i, hi, rfl⟩ := List.mem_iff_getElem.mp hv
    rw [List.getElem_drop, List.getElem_finRange]
    exact Nat.le_add_right k i
  · intro hk
    have hlen : v.val - k < ((List.finRange n).drop k).length := by
      rw [List.length_drop, List.length_finRange]
      omega
    refine List.mem_iff_getElem.mpr ⟨v.val - k, hlen, ?_⟩
    rw [List.getElem_drop, List.getElem_finRange]
    apply Fin.ext
    show k + (v.val - k) = v.val
    omega

theorem mem_flatten_pairRows {u v : Fin n} : (u, v) ∈ (pairRows n).flatten ↔ u < v := by
  rw [pairRows, ← List.flatMap_def, List.mem_flatMap]
  constructor
  · rintro ⟨w, -, hmem⟩
    obtain ⟨x, hx, heq⟩ := List.mem_map.mp hmem
    obtain ⟨rfl, rfl⟩ := Prod.mk.inj heq
    exact mem_drop_finRange.mp hx
  · intro hlt
    exact ⟨u, List.mem_finRange u, List.mem_map.mpr ⟨v, mem_drop_finRange.mpr hlt, rfl⟩⟩

theorem flatten_pairRowsOutside (inside : Fin n → Bool) : (pairRowsOutside inside).flatten =
    (pairRows n).flatten.filter fun e => !(inside e.1 && inside e.2) :=
  List.filter_flatten.symm

/-- A graph is made of the pairs whose coins have come out true, whatever rows they stand in. -/
theorem run_ofCoins (p : Binary64) (rows : List (List (Fin n × Fin n))) (draws : Draws) :
    let noise := (Sampler.coins p rows.flatten.length).run draws
    (ofCoins p rows).run draws = (ofPairs (Sampler.picked rows.flatten noise.1), noise.2) := by
  have hrows := Sampler.run_mapM_keepEach (p := p) rows draws
  rw [Sampler.run_keepEach] at hrows
  obtain ⟨hpicked, hrest⟩ := Prod.mk.inj hrows
  rw [ofCoins, Sampler.run_bind, Sampler.run_pure, ← hpicked, ← hrest]

/-- Coins make a simple graph, whatever rows of pairs they are tossed for. -/
theorem simple_ofCoins {p : Binary64} {rows : List (List (Fin n × Fin n))}
    (h : ∀ e ∈ rows.flatten, e.1 ≠ e.2) (draws : Draws) :
    ((ofCoins p rows).run draws).1.Simple := by
  rw [run_ofCoins]
  exact simple_ofPairs fun e he => h e ((Sampler.picked_sublist _ _).subset he)

theorem simple_erdosRenyi {p : Binary64} {sampler : Sampler (Graph n)}
    (h : erdosRenyi n p = .ok sampler) (draws : Draws) : (sampler.run draws).1.Simple := by
  obtain ⟨-, -, h⟩ := bind_eq_ok.mp h
  cases h
  exact simple_ofCoins (fun e he => ne_of_lt (mem_flatten_pairRows.mp he)) draws

theorem simple_withPlantedIndependentSet {p : Binary64} {size : Nat}
    {choose : Sampler.IndexChoice} {sampler : Sampler (Graph n × List (Fin n))}
    (h : withPlantedIndependentSet n p size choose = .ok sampler) (draws : Draws) :
    (sampler.run draws).1.1.Simple := by
  obtain ⟨-, -, h⟩ := bind_eq_ok.mp h
  split at h
  · cases h
  · cases h
    apply simple_ofCoins
    intro e he
    rw [flatten_pairRowsOutside] at he
    exact ne_of_lt (mem_flatten_pairRows.mp (List.mem_of_mem_filter he))

/-! ## Adjacency matrices -/

theorem rowFault?_eq_none {M : Vector (Vector Bool n) n} {i : Fin n} (h : rowFault? M i = none) :
    (M.get i).get i = false ∧ ∀ j, i < j → (M.get i).get j = (M.get j).get i := by
  unfold rowFault? at h
  split at h
  · cases h
  · next hi =>
      refine ⟨Bool.eq_false_iff.mpr hi, ?_⟩
      intro j hij
      have hmem : j ∈ (List.finRange n).drop (i + 1) := mem_drop_finRange.mpr hij
      have := List.findSome?_eq_none_iff.mp h j hmem
      by_contra hne
      simp [hne] at this

/-- The bits of a matrix without a fault are symmetric. -/
theorem get_get_comm {M : Vector (Vector Bool n) n} (h : ∀ i, rowFault? M i = none) (u v : Fin n) :
    (M.get u).get v = (M.get v).get u := by
  rcases lt_trichotomy u v with hlt | rfl | hlt
  · exact (rowFault?_eq_none (h u)).2 v hlt
  · rfl
  · exact ((rowFault?_eq_none (h v)).2 u hlt).symm

/-- A graph is made of a matrix without a fault, from the bits above its diagonal. -/
theorem ofMatrix_eq_ok {M : Vector (Vector Bool n) n} {G : Graph n} (h : ofMatrix M = .ok G) :
    (∀ i, rowFault? M i = none) ∧
      G = ofPairs ((pairRows n).flatten.filter fun e => (M.get e.1).get e.2) := by
  unfold ofMatrix at h
  split at h
  · cases h
  · next hnone =>
      cases h
      exact ⟨fun i => List.findSome?_eq_none_iff.mp hnone i (List.mem_finRange i), rfl⟩

theorem ne_of_mem_pairRows {e : Fin n × Fin n} (h : e ∈ (pairRows n).flatten) : e.1 ≠ e.2 :=
  ne_of_lt (mem_flatten_pairRows.mp h)

theorem adjacent_of_ofMatrix {M : Vector (Vector Bool n) n} {G : Graph n}
    (h : ofMatrix M = .ok G) (u v : Fin n) : G.Adjacent u v ↔ (M.get u).get v = true := by
  obtain ⟨hrows, rfl⟩ := ofMatrix_eq_ok h
  rw [adjacent_ofPairs fun e he => ne_of_mem_pairRows (List.mem_of_mem_filter he)]
  simp only [List.mem_filter, mem_flatten_pairRows, get_get_comm hrows v u, ← or_and_right]
  refine and_iff_right_of_imp fun hbit => lt_or_gt_of_ne ?_
  rintro rfl
  rw [(rowFault?_eq_none (hrows u)).1] at hbit
  cases hbit

theorem simple_ofMatrix {M : Vector (Vector Bool n) n} {G : Graph n} (h : ofMatrix M = .ok G) :
    G.Simple := by
  obtain ⟨-, rfl⟩ := ofMatrix_eq_ok h
  exact simple_ofPairs fun e he => ne_of_mem_pairRows (List.mem_of_mem_filter he)

theorem simple_parseMatrix {text : String} {G : Graph n} (h : parseMatrix text = .ok ⟨n, G⟩) :
    G.Simple := by
  unfold parseMatrix at h
  dsimp only at h
  split at h
  · cases h
  · obtain ⟨M, -, h⟩ := bind_eq_ok.mp h
    obtain ⟨G', hmatrix, h⟩ := bind_eq_ok.mp h
    cases h
    exact simple_ofMatrix hmatrix

/-! ## All constructors -/

/-- The graphs that can be made. -/
inductive Constructed : {n : Nat} → Graph n → Prop
  | empty (n : Nat) : Constructed (Graph.empty n)
  | ofEdges {n : Nat} {edges : List (Nat × Nat)} {G : Graph n}
      (h : Graph.ofEdges n edges = .ok G) : Constructed G
  | path (n : Nat) : Constructed (Graph.path n)
  | complete (n : Nat) : Constructed (Graph.complete n)
  | erdosRenyi {n : Nat} {p : Binary64} {sampler : Sampler (Graph n)}
      (h : Graph.erdosRenyi n p = .ok sampler) (draws : Draws) :
      Constructed (sampler.run draws).1
  | withPlantedIndependentSet {n : Nat} {p : Binary64} {size : Nat}
      {choose : Sampler.IndexChoice} {sampler : Sampler (Graph n × List (Fin n))}
      (h : Graph.withPlantedIndependentSet n p size choose = .ok sampler) (draws : Draws) :
      Constructed (sampler.run draws).1.1
  | parseMatrix {n : Nat} {text : String} {G : Graph n}
      (h : Graph.parseMatrix text = .ok ⟨n, G⟩) : Constructed G
  | ofFile {n : Nat} {path : String} {content : Except String ByteArray} {G : Graph n}
      (h : Graph.ofFile path content = .ok ⟨n, G⟩) : Constructed G

/-- **Every constructed graph is simple.** -/
theorem Constructed.simple {G : Graph n} (hG : G.Constructed) : G.Simple := by
  cases hG with
  | empty => exact simple_empty n
  | ofEdges h => exact simple_ofEdges h
  | path => exact simple_path n
  | complete => exact simple_complete n
  | erdosRenyi h draws => exact simple_erdosRenyi h draws
  | withPlantedIndependentSet h draws => exact simple_withPlantedIndependentSet h draws
  | parseMatrix h => exact simple_parseMatrix h
  | ofFile h =>
      unfold Graph.ofFile at h
      split at h
      · cases h
      · split at h
        · cases h
        · exact simple_parseMatrix h

end Graph

end Winners

import Winners.Proofs.Graph.Edges
import Winners.Proofs.Graph.Independent

set_option autoImplicit false

/-! # The queries of a graph agree

A graph can be asked for the neighbours and the degree of a vertex, for its edges and their number,
and whether two numbers are the ends of an edge. All answers come from the neighbour lists, and
`Graph.Canonical` says how they go together: what is listed at one end is listed at the other, the
edges are the pairs that pass the test, each of them once and in lexicographic order, and half the
entries of the lists is their number.

Neighbours are vertices by their type, so they are in range. The rest is in the lists
being strictly ascending and symmetric, which every constructor sees to
(`Graph.Constructed.simple`).
-/

namespace Winners.Graph

variable {n : Nat} {G : Graph n}

/-- **A graph whose queries agree.** -/
structure Canonical (G : Graph n) : Prop where
  neighborsAt : ∀ v : Fin n, G.neighborsAt v = .ok (G.neighbors.get v)
  ascending : ∀ v, (G.neighbors.get v).Pairwise (· < ·)
  loopless : ∀ v, v ∉ G.neighbors.get v
  symm : ∀ u v, v ∈ G.neighbors.get u ↔ u ∈ G.neighbors.get v
  degreeAt : ∀ v : Fin n, G.degreeAt v = .ok (G.neighbors.get v).length
  sum_degrees : ∑ v, (G.neighbors.get v).length = 2 * G.edgeCount
  mem_edges : ∀ u v : Fin n, (u, v) ∈ G.edges ↔ u < v ∧ G.hasEdge u v = true
  /-- Lexicographic order is strict, so no edge is listed twice. -/
  edges_ascending : G.edges.Pairwise (Prod.Lex (· < ·) (· < ·))
  length_edges : G.edges.length = G.edgeCount
  hasEdge_iff : ∀ u v : Fin n, G.hasEdge u v = true ↔ v ∈ G.neighbors.get u
  hasEdge_symm : ∀ u v : Fin n, G.hasEdge u v = G.hasEdge v u
  hasEdge_outside : ∀ u v : Nat, n ≤ u ∨ n ≤ v → G.hasEdge u v = false

/-- Rows of ascending pairs, one row behind the other, are in lexicographic order. -/
theorem rows_ascending {row : Fin n → List (Fin n)} (h : ∀ u, (row u).Pairwise (· < ·)) :
    ((List.finRange n).flatMap fun u => (row u).map fun v => (u, v)).Pairwise
      (Prod.Lex (· < ·) (· < ·)) := by
  rw [List.pairwise_flatMap]
  constructor
  · intro u _
    rw [List.pairwise_map]
    exact (h u).imp fun h => Prod.Lex.right u h
  · apply (List.pairwise_lt_finRange n).imp
    intro u v huv e he f hf
    obtain ⟨x, _, rfl⟩ := List.mem_map.mp he
    obtain ⟨y, _, rfl⟩ := List.mem_map.mp hf
    exact Prod.Lex.left x y huv

theorem edges_ascending (hG : G.Simple) : G.edges.Pairwise (Prod.Lex (· < ·) (· < ·)) :=
  rows_ascending fun u => (hG.ascending u).filter _

theorem hasEdge_of_outside {u v : Nat} (h : n ≤ u ∨ n ≤ v) : G.hasEdge u v = false := by
  unfold hasEdge
  split
  · next hu =>
      have hv : ¬v < n := by omega
      exact dif_neg hv
  · rfl

theorem Simple.canonical (hG : G.Simple) : G.Canonical where
  neighborsAt v := by
    rw [Graph.neighborsAt, checkIndex_val]
    rfl
  ascending := hG.ascending
  loopless := hG.loopless
  symm _ _ := hG.adjacent_comm
  degreeAt v := by
    rw [Graph.degreeAt, Graph.neighborsAt, checkIndex_val]
    rfl
  sum_degrees := by rw [sum_length_neighbors hG, edgeCount_eq hG]
  mem_edges u v := by rw [Graph.mem_edges, hasEdge_val, decide_eq_true_iff]
  edges_ascending := Graph.edges_ascending hG
  length_edges := (edgeCount_eq hG).symm
  hasEdge_iff u v := by
    rw [hasEdge_val, decide_eq_true_iff]
    rfl
  hasEdge_symm u v := by
    rw [hasEdge_val, hasEdge_val]
    exact decide_eq_decide.mpr hG.adjacent_comm
  hasEdge_outside _ _ := hasEdge_of_outside

/-- **The queries of every constructed graph agree**, whatever edges, matrix or draws it was made
from. -/
theorem constructed_graph_is_canonical {n : Nat} {G : Graph n} (hG : G.Constructed) :
    G.Canonical :=
  hG.simple.canonical

/-- An edge list that names its two edges twice each, and either way round. -/
theorem constructed_graph_is_canonical_repeated :
    ∃ G : Graph 4, Graph.ofEdges 4 [(2, 1), (0, 1), (1, 0), (1, 2)] = .ok G ∧
      G.edges = [(0, 1), (1, 2)] ∧ G.edgeCount = 2 ∧ G.hasEdge 1 2 = true ∧
      G.hasEdge 2 1 = true ∧ G.hasEdge 1 4 = false ∧
      ∑ v, (G.neighbors.get v).length = 4 := by
  have hG : Graph.ofEdges 4 [(2, 1), (0, 1), (1, 0), (1, 2)] =
      .ok ⟨#v[[1], [0, 2], [1], []]⟩ := by decide +kernel
  have hcanonical := constructed_graph_is_canonical (.ofEdges hG)
  have hcount : Graph.edgeCount ⟨#v[[1], [0, 2], [1], ([] : List (Fin 4))]⟩ = 2 := by
    decide +kernel
  refine ⟨_, hG, by decide +kernel, hcount, by decide +kernel, ?_, ?_, ?_⟩
  · exact (hcanonical.hasEdge_symm 2 1).trans (by decide +kernel)
  · exact hcanonical.hasEdge_outside 1 4 (Or.inr le_rfl)
  · rw [hcanonical.sum_degrees, hcount]

end Winners.Graph

import Winners.Proofs.Counting
import Winners.Proofs.Graph.Simple

set_option autoImplicit false

/-! # Counting edges

Edges are counted once each, lower end first (`Graph.edges`), while the caches of the trackers
count along neighbour lists. In a simple graph the two go together: a symmetric property of pairs
holds for twice as many neighbours as edges (`sum_countP_neighbors`), and when it changes for the
pairs with one vertex only, the number of edges with it changes as the number of neighbours
does (`countP_edges_change`).
-/

namespace Winners.Graph

open Counting

variable {n : Nat} {G : Graph n}

theorem countP_neighbors (hG : G.Simple) (p : Fin n → Bool) (u : Fin n) :
    (G.neighbors.get u).countP p = ∑ v, if G.Adjacent u v ∧ p v then 1 else 0 :=
  countP_eq_sum (hG.nodup u) p

/-- The edges with a property, as a sum over pairs in ascending order. -/
theorem countP_edges (hG : G.Simple) (p : Fin n → Fin n → Bool) :
    (G.edges.countP fun e => p e.1 e.2) =
      ∑ u, ∑ v, if u < v then (if G.Adjacent u v ∧ p u v then 1 else 0) else 0 := by
  have hrow : ∀ u : Fin n,
      (((G.neighbors.get u).filter (u < ·)).map fun v => (u, v)).countP (fun e => p e.1 e.2) =
        ∑ v, if u < v then (if G.Adjacent u v ∧ p u v then 1 else 0) else 0 := by
    intro u
    rw [List.countP_map, List.countP_filter, countP_neighbors hG]
    apply Finset.sum_congr rfl
    intro v _
    by_cases h : u < v <;> simp [h]
  rw [edges, List.countP_flatMap, Fin.sum_univ_def]
  congr 1
  apply List.map_congr_left
  intro u _
  exact hrow u

/-- There are no more edges than ordered pairs of vertices. -/
theorem length_edges_le (hG : G.Simple) : G.edges.length ≤ n * n := by
  have hterm : ∀ u v : Fin n,
      (if u < v then (if G.Adjacent u v ∧ true = true then 1 else 0) else 0) ≤ 1 := by
    intro u v
    split
    · split <;> decide
    · decide
  calc G.edges.length = G.edges.countP fun _ => true := by rw [List.countP_true]
    _ = ∑ u, ∑ v, if u < v then (if G.Adjacent u v ∧ true = true then 1 else 0) else 0 :=
        countP_edges hG fun _ _ => true
    _ ≤ ∑ _u : Fin n, ∑ _v : Fin n, 1 :=
        Finset.sum_le_sum fun u _ => Finset.sum_le_sum fun v _ => hterm u v
    _ = n * n := by simp

/-- **Handshake.** A symmetric property of pairs is met from both ends of each edge. -/
theorem sum_countP_neighbors (hG : G.Simple) (p : Fin n → Fin n → Bool)
    (symm : ∀ u v, p u v = p v u) :
    ∑ u, (G.neighbors.get u).countP (p u) = 2 * G.edges.countP fun e => p e.1 e.2 := by
  have hcount : ∀ u, (G.neighbors.get u).countP (p u) =
      ∑ v, if G.Adjacent u v ∧ p u v then 1 else 0 := fun u => countP_neighbors hG (p u) u
  rw [Finset.sum_congr rfl fun u _ => hcount u, countP_edges hG, sum_pairs]
  · intro u v
    simp only [hG.adjacent_comm (u := u), symm u v]
  · intro u
    rw [if_neg fun h => hG.loopless u h.1]

/-- The neighbour lists have two entries for each edge. -/
theorem sum_length_neighbors (hG : G.Simple) :
    ∑ u, (G.neighbors.get u).length = 2 * G.edges.length := by
  have hshake := sum_countP_neighbors hG (fun _ _ => true) fun _ _ => rfl
  simpa only [List.countP_true] using hshake

theorem edgeCount_eq (hG : G.Simple) : G.edgeCount = G.edges.length := by
  have hlists : G.neighbors.toList = (List.finRange n).map G.neighbors.get := by
    apply List.ext_getElem
    · simp
    · intro i _ _
      simp only [Vector.getElem_toList, List.getElem_map, List.getElem_finRange]
      rfl
  have hentries : G.neighbors.toList.flatten.length = ∑ u, (G.neighbors.get u).length := by
    rw [List.length_flatten, hlists, List.map_map, Fin.sum_univ_def]
    rfl
  rw [edgeCount, hentries, sum_length_neighbors hG]
  exact Nat.mul_div_cancel_left _ Nat.two_pos

theorem length_neighbors_le_maxDegree (v : Fin n) :
    (G.neighbors.get v).length ≤ G.maxDegree := by
  have hmem : (G.neighbors.get v).length ∈ G.neighbors.toList.map List.length :=
    List.mem_map_of_mem (Vector.mem_toList_iff.mpr (Vector.getElem_mem v.isLt))
  rw [maxDegree, List.foldl_max]
  exact (List.le_max?_getD_of_mem hmem).trans (le_max_right _ _)

theorem edgesWithin_le (hG : G.Simple) (inside : Fin n → Bool) :
    G.edgesWithin inside ≤ G.edgeCount := by
  rw [edgeCount_eq hG]
  exact List.countP_le_length

/-- **Local change.** When a symmetric property changes only for pairs with the vertex `x`, the
number of edges with it changes as the number of neighbours of `x` with it does. -/
theorem countP_edges_change (hG : G.Simple) (x : Fin n) {p q : Fin n → Fin n → Bool}
    (hp : ∀ u v, p u v = p v u) (hq : ∀ u v, q u v = q v u)
    (same : ∀ u v, u ≠ x → v ≠ x → q u v = p u v) :
    ((G.edges.countP fun e => q e.1 e.2 : Nat) : Int) =
      (G.edges.countP fun e => p e.1 e.2 : Nat) +
        ((G.neighbors.get x).countP (q x) - (G.neighbors.get x).countP (p x)) := by
  let one (r : Fin n → Fin n → Bool) (u v : Fin n) : Int := if G.Adjacent u v ∧ r u v then 1 else 0
  have hcount : ∀ (r : Fin n → Fin n → Bool) (u : Fin n),
      ((G.neighbors.get u).countP (r u) : Int) = ∑ v, one r u v := by
    intro r u
    rw [countP_neighbors hG]
    push_cast
    rfl
  have hdouble : ∀ r : Fin n → Fin n → Bool, (∀ u v, r u v = r v u) →
      ∑ u, ∑ v, one r u v = 2 * ((G.edges.countP fun e => r e.1 e.2 : Nat) : Int) := by
    intro r hr
    rw [Finset.sum_congr rfl fun u _ => (hcount r u).symm]
    exact_mod_cast sum_countP_neighbors hG r hr
  have hcross : ∑ u, ∑ v, (one q u v - one p u v) = 2 * ∑ v, (one q x v - one p x v) := by
    refine sum_cross (fun u v => one q u v - one p u v) x ?_ ?_ ?_
    · intro u v
      simp only [one, hG.adjacent_comm (u := u), hp u v, hq u v]
    · have h : ¬G.Adjacent x x := hG.loopless x
      simp only [one, h, false_and, if_false, sub_self]
    · intro u v hu hv
      simp only [one, same u v hu hv, sub_self]
  simp only [Finset.sum_sub_distrib] at hcross
  rw [hdouble q hq, hdouble p hp, ← hcount q, ← hcount p] at hcross
  omega

end Winners.Graph

import Winners.Proofs.Code.Weight
import Winners.Proofs.Number.Faithful
import Winners.Proofs.Tracker.Coloring
import Winners.Proofs.Tracker.Message
import Winners.Proofs.Tracker.VertexSubset

set_option autoImplicit false

/-! # The fitness of trackers is moderate

No two fitness values of trackers add up to an infinity, when the vertices of a graph are counted by
a 64-bit word and the weights of a code add up to one. Caches being exact, a score is bounded by what
it counts: edges, of which there are no more than pairs of vertices, or weights of checks. A density
is no greater than the number of edges that it divides.
-/

namespace Winners

open Binary64

/-- Scores that two words count are moderate. -/
theorem Binary64.moderate_ofInt {i : Int} (hnonneg : 0 ≤ i) (h : i < 2 ^ 128) :
    (ofInt i).Moderate := by
  obtain ⟨n, rfl⟩ := Int.eq_ofNat_of_zero_le hnonneg
  exact moderate_ofNat (by omega)

theorem Coloring.moderate_fitness {n : Nat} {G : Graph n} (hG : G.Simple) (hn : n < 2 ^ 64)
    {C : Coloring G} (hC : Tracker.Reachable Coloring.Fresh C) : (Tracker.fitness C).Moderate := by
  have hconflicts := conflicts_of_reachable hG hC
  have hle : conflictCount G C.colors ≤ n * n :=
    List.countP_le_length.trans (Graph.length_edges_le hG)
  have hpairs : n * n < 2 ^ 64 * 2 ^ 64 := Nat.mul_lt_mul'' hn hn
  show (ofInt C.conflicts).Moderate
  rw [hconflicts]
  exact moderate_ofInt (Int.natCast_nonneg _) (by omega)

theorem Message.moderate_fitness {n m : Nat} {C : Code n m} (hC : C.Dual)
    (hweight : C.totalWeight < 2 ^ 64) {x : Message C}
    (hx : Tracker.Reachable Message.Fresh x) : (Tracker.fitness x).Moderate := by
  have hscore := score_of_reachable hC hx
  have hle := Code.satisfiedWeight_le hC x.bits.get
  show (ofInt x.score).Moderate
  rw [hscore]
  exact moderate_ofInt (Code.satisfiedWeight_nonneg hC x.bits.get) (by omega)

theorem VertexSubset.moderate_fitness {n : Nat} {G : Graph n} (hG : G.Simple) (hn : n < 2 ^ 64)
    {S : VertexSubset G} (hS : Tracker.Reachable VertexSubset.Fresh S) :
    (Tracker.fitness S).Moderate := by
  have hexact := exact_of_reachable hG hS
  have hsize : S.size ≤ n := hexact.sides.inside.size_le
  have hedges : G.edgesWithin S.member.get ≤ n * n :=
    List.countP_le_length.trans (Graph.length_edges_le hG)
  have hpairs : n * n < 2 ^ 64 * 2 ^ 64 := Nat.mul_lt_mul'' hn hn
  have hdivisor : S.size * (S.size - 1) ≤ n * n := Nat.mul_le_mul hsize (by omega)
  show S.density.Moderate
  unfold density
  split
  · unfold Moderate
    decide +kernel
  · have htwo : 2 * 1 ≤ S.size * (S.size - 1) := Nat.mul_le_mul (by omega) (by omega)
    rw [hexact.edges]
    apply moderate_ofNat_div_ofNat
    · omega
    · omega
    · omega

end Winners

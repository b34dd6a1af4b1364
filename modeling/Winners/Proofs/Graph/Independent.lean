import Winners.Proofs.Graph.Simple

set_option autoImplicit false

/-! # Independent sets

A set of vertices without edges inside, a list of vertices no two of which are adjacent, and the
test of such a list by bare numbers say the same.
-/

namespace Winners.Graph

variable {n : Nat} {G : Graph n}

theorem mem_edges {u v : Fin n} : (u, v) ∈ G.edges ↔ u < v ∧ G.Adjacent u v := by
  simp [edges, Adjacent, and_comm]

/-- No edge lies inside a set just when no two of its vertices are adjacent. -/
theorem edgesWithin_eq_zero_iff (hG : G.Simple) {inside : Fin n → Bool} :
    G.edgesWithin inside = 0 ↔
      ∀ u v, inside u = true → inside v = true → ¬G.Adjacent u v := by
  rw [edgesWithin, List.countP_eq_zero]
  constructor
  · intro h u v hu hv hadj
    rcases lt_trichotomy u v with hlt | rfl | hgt
    · exact h (u, v) (mem_edges.mpr ⟨hlt, hadj⟩) (by simp [hu, hv])
    · exact hG.loopless u hadj
    · exact h (v, u) (mem_edges.mpr ⟨hgt, hG.adjacent_comm.mp hadj⟩) (by simp [hu, hv])
  · rintro h ⟨u, v⟩ hmem hinside
    obtain ⟨hu, hv⟩ : inside u = true ∧ inside v = true := by simpa using hinside
    exact h u v hu hv (mem_edges.mp hmem).2

theorem hasEdge_val (u v : Fin n) : G.hasEdge u.val v.val = decide (G.Adjacent u v) := by
  simp [hasEdge]

/-- The test of a list of vertices, given by bare numbers. -/
theorem isIndependent_map_val {vertices : List (Fin n)} :
    G.isIndependent (vertices.map Fin.val) = true ↔
      vertices.Pairwise fun u v => ¬G.Adjacent u v := by
  induction vertices with
  | nil => simp [isIndependent]
  | cons u vertices ih =>
      rw [List.map_cons, isIndependent, Bool.and_eq_true, ih, List.pairwise_cons]
      simp [hasEdge_val]

end Winners.Graph

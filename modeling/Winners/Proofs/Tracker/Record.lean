import Winners.Proofs.Tracker.Undo
import Winners.Search.Observer

set_option autoImplicit false

/-! # Genuine records

What a snapshot records of a particle is its assignment with the score and the fitness that are
cached. The record is genuine if any tracker of this assignment computes the same score and fitness
from it alone. For the shipped trackers nothing else goes into them, and exact caches make genuine
records.
-/

namespace Winners

/-- Score and fitness are those of the assignment, computed from scratch. -/
structure ParticleRecord.Genuine (τ : Type) {μ ν : Type} [Tracker τ μ ν] (r : ParticleRecord ν) :
    Prop where
  assigned : ∃ t : τ, Tracker.assignment t = r.assignment
  score : ∀ t : τ, Tracker.assignment t = r.assignment → r.score = Tracker.scoreFromScratch t
  fitness : ∀ t : τ, Tracker.assignment t = r.assignment →
    r.fitness = Tracker.fitness (Tracker.rebuild t)

theorem VertexSubset.Exact.genuine {n : Nat} {G : Graph n} {S : VertexSubset G} (hS : S.Exact) :
    (ParticleRecord.ofTracker S).Genuine (VertexSubset G) where
  assigned := ⟨S, rfl⟩
  score T hT := by
    rw [show Tracker.scoreFromScratch T = G.edgesWithin T.member.get from rfl,
      Vector.toList_inj.mp hT]
    exact hS.edges
  fitness T hT := (hS.alike (exact_ofMembers G T.member) (Vector.toList_inj.mp hT).symm).fitness

theorem Message.genuine_of_reachable {n m : Nat} {C : Code n m} (hC : C.Dual) {x : Message C}
    (hx : Tracker.Reachable Message.Fresh x) :
    (ParticleRecord.ofTracker x).Genuine (Message C) where
  assigned := ⟨x, rfl⟩
  score y hy := by
    rw [show Tracker.scoreFromScratch y = C.satisfiedWeight y.bits.get from rfl,
      Vector.toList_inj.mp hy]
    exact score_of_reachable hC hx
  fitness y hy := by
    rw [show Tracker.rebuild y = ofBits C y.bits from rfl, Vector.toList_inj.mp hy,
      ← eq_ofBits_of_reachable hC hx]
    rfl

namespace Coloring

variable {n : Nat} {G : Graph n}

/-- Colourings with the same assignment, be it from palettes of different sizes, give the same
vertices the same colour. -/
theorem get_eq_get_iff_of_assignment {C D : Coloring G}
    (h : Tracker.assignment D = Tracker.assignment C) (v w : Fin n) :
    D.colors.get v = D.colors.get w ↔ C.colors.get v = C.colors.get w := by
  have hcolors : D.colors.map Fin.val = C.colors.map Fin.val := by
    rw [← Vector.toList_inj, Vector.toList_map, Vector.toList_map]
    exact h
  have hval : ∀ u : Fin n, (D.colors.get u).val = (C.colors.get u).val := by
    intro u
    rw [← Patch.get_map Fin.val, hcolors, Patch.get_map]
  rw [Fin.ext_iff, Fin.ext_iff, hval, hval]

theorem conflictCount_of_assignment {C D : Coloring G}
    (h : Tracker.assignment D = Tracker.assignment C) :
    conflictCount G D.colors = conflictCount G C.colors := by
  unfold conflictCount
  simp only [get_eq_get_iff_of_assignment h]

theorem genuine_of_reachable (hG : G.Simple) {C : Coloring G}
    (hC : Tracker.Reachable Coloring.Fresh C) :
    (ParticleRecord.ofTracker C).Genuine (Coloring G) := by
  have hconflicts : ∀ D : Coloring G, Tracker.assignment D = Tracker.assignment C →
      C.conflicts = conflictCount G D.colors := by
    intro D hD
    rw [conflictCount_of_assignment hD]
    exact conflicts_of_reachable hG hC
  refine ⟨⟨C, rfl⟩, hconflicts, ?_⟩
  intro D hD
  show Binary64.ofInt C.conflicts = .ofInt (conflictsOf G D.colors)
  rw [hconflicts D hD, conflictsOf_eq hG]

end Coloring

end Winners

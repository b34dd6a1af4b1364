import Winners.Proofs.Walk.Legal
import Mathlib.Data.Set.Function

set_option autoImplicit false

/-! # Random recolourings

A random recolouring is made of two draws: a vertex, and a number out of one fewer than there are
colours. The numbers below the current colour of the vertex stand for themselves and those from it
on for the colour above them, so the current colour is skipped and every other one is hit by one
number (`drawOf` is the inverse). Hence the pairs of draws stand for the recolourings that change
something, each pair for one of them (`recolorings_are_unbiased`), and if the draws are uniform,
so is the choice among these moves.
-/

namespace Winners

namespace Policy

/-! ## Skipping the current colour -/

variable {k current color : Nat}

/-- The draw that stands for a colour other than the current one. -/
def drawOf (current color : Nat) : Nat := if current < color then color - 1 else color

theorem otherColor_ne (current draw : Nat) : otherColor current draw ≠ current := by
  unfold otherColor
  split <;> omega

theorem drawOf_otherColor (current draw : Nat) :
    drawOf current (otherColor current draw) = draw := by
  unfold drawOf otherColor
  split <;> split <;> omega

theorem otherColor_drawOf (h : color ≠ current) :
    otherColor current (drawOf current color) = color := by
  unfold drawOf otherColor
  split <;> split <;> omega

theorem drawOf_lt (h : color ≠ current) (hcolor : color < k) (hcurrent : current < k) :
    drawOf current color < k - 1 := by
  unfold drawOf
  split <;> omega

end Policy

open Policy

namespace Coloring

variable {n : Nat} {G : Graph n}

/-! ## Moves that change something -/

theorem colorOf_val (C : Coloring G) (v : Fin n) : C.colorOf v.val = .ok (C.colors.get v).val :=
  bind_checkIndex_val v _

/-- The moves that give a vertex a colour other than its own. -/
def alternatives (C : Coloring G) : Set Recolor :=
  {move | move.node < n ∧ move.color < C.k ∧ C.colorOf move.node ≠ .ok move.color}

theorem mk_mem_alternatives {C : Coloring G} {v : Fin n} {color : Nat} :
    ⟨v, color⟩ ∈ C.alternatives ↔ color < C.k ∧ color ≠ C.colors.get v := by
  have hcolor : C.colorOf v.val ≠ .ok color ↔ color ≠ C.colors.get v := by
    rw [colorOf_val, ne_eq, Except.ok.injEq, eq_comm]
  show v.val < n ∧ color < C.k ∧ C.colorOf v.val ≠ .ok color ↔ _
  rw [hcolor]
  exact and_iff_right v.isLt

/-- **The draws stand for these moves**, each pair of draws for one of them. -/
theorem bijOn_recoloring (C : Coloring G) :
    Set.BijOn (fun draw : Fin n × Fin (C.k - 1) => recoloring C draw.1 draw.2) Set.univ
      C.alternatives := by
  refine ⟨?_, ?_, ?_⟩
  · rintro ⟨v, draw⟩ -
    exact mk_mem_alternatives.mpr ⟨otherColor_lt draw.isLt, otherColor_ne _ _⟩
  · rintro ⟨v, draw⟩ - ⟨v', draw'⟩ - h
    obtain ⟨hnode, hcolor⟩ := Recolor.mk.inj h
    obtain rfl : v = v' := Fin.ext hnode
    -- the current colour is the same for both draws, so it can be taken out again
    have hdraw := congrArg (drawOf (C.colors.get v)) hcolor
    rw [drawOf_otherColor, drawOf_otherColor] at hdraw
    exact congrArg (Prod.mk v) (Fin.ext hdraw)
  · rintro ⟨node, color⟩ hmove
    obtain ⟨v, rfl⟩ : ∃ v : Fin n, node = v.val := ⟨⟨node, hmove.1⟩, rfl⟩
    obtain ⟨hcolor, hother⟩ := mk_mem_alternatives.mp hmove
    refine ⟨(v, ⟨drawOf (C.colors.get v) color, drawOf_lt hother hcolor (Fin.isLt _)⟩),
      Set.mem_univ _, ?_⟩
    exact congrArg (Recolor.mk v.val) (otherColor_drawOf hother)

end Coloring

open Coloring

/-- **Random recolourings are unbiased.** With a vertex and a second colour, what is proposed is
told by the first two draws, an index below the number of vertices and one below the number of
colours less one. This is a bijection from the pairs of draws onto the moves that give a vertex a
colour other than its own. -/
theorem recolorings_are_unbiased {n : Nat} {G : Graph n} {π : Type} (C : Coloring G) (hn : 0 < n)
    (hk : 2 ≤ C.k) :
    (∀ memory : π, (randomRecolor : Policy (Coloring G) Recolor π).propose C memory = do
      let node ← Sampler.below n hn
      let draw ← Sampler.below (C.k - 1) (Nat.sub_pos_of_lt hk)
      return (some (recoloring C node draw), memory)) ∧
    Set.BijOn (fun draw : Fin n × Fin (C.k - 1) => recoloring C draw.1 draw.2) Set.univ
      C.alternatives := by
  refine ⟨?_, C.bijOn_recoloring⟩
  intro memory
  have hcan : 0 < n ∧ 0 < C.k - 1 := ⟨hn, Nat.sub_pos_of_lt hk⟩
  simp only [randomRecolor, ofSampler, ofPropose, dif_pos hcan, bind_assoc, pure_bind]

/-- A path of two vertices in the second and the third of three colours. -/
def laterColors : Coloring (Graph.path 2) :=
  ofColors (Graph.path 2) ((Vector.finRange 2).map Fin.succ)

/-- One pair of draws stands for the last colour of the first vertex, and none for the colour that
it has. -/
theorem recolorings_are_unbiased_laterColors :
    laterColors.Fresh ∧ 2 ≤ laterColors.k ∧
    (∃! draw : Fin 2 × Fin (laterColors.k - 1),
      recoloring laterColors draw.1 draw.2 = ⟨0, 2⟩) ∧
    (∀ draw : Fin 2 × Fin (laterColors.k - 1), recoloring laterColors draw.1 draw.2 ≠ ⟨0, 1⟩) := by
  have hlist : ofList (Graph.path 2) 3 [1, 2] = .ok laterColors := by decide +kernel
  have hk : 2 ≤ laterColors.k := by decide
  obtain ⟨-, hmaps, hinjective, hsurjective⟩ :=
    recolorings_are_unbiased (π := Unit) laterColors (by decide) hk
  refine ⟨.ofList hlist, hk, ?_, ?_⟩
  · obtain ⟨draw, -, hdraw⟩ := hsurjective
      (show (⟨0, 2⟩ : Recolor) ∈ laterColors.alternatives from
        ⟨by decide, by decide, by decide +kernel⟩)
    refine ⟨draw, hdraw, fun other hother => ?_⟩
    exact hinjective (Set.mem_univ _) (Set.mem_univ _) (hother.trans hdraw.symm)
  · intro draw hdraw
    have hmem : recoloring laterColors draw.1 draw.2 ∈ laterColors.alternatives :=
      hmaps (Set.mem_univ draw)
    rw [hdraw] at hmem
    exact hmem.2.2 (by decide +kernel)

end Winners

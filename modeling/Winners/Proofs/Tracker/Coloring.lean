import Winners.Tracker.Coloring
import Winners.Proofs.Graph.Edges
import Winners.Proofs.Tracker.History
import Mathlib.Order.Bounds.Defs
import Mathlib.Algebra.Order.Ring.Int

set_option autoImplicit false

/-! # The caches of colourings are exact

`recolor_ofColors` says that recolouring a vertex patches the caches of a colouring into those of
the new one, computed from scratch: the palettes of the neighbours shift by one vertex, the
marginals that can have changed are computed again, and the conflicts change by a difference of
two palette entries. Hence the caches are exact after any history (`coloring_caches_exact`).
-/

namespace Winners

namespace Coloring

open Counting

variable {n k : Nat} {G : Graph n}

/-! ## Conflicts -/

/-- The number of edges whose ends have the same colour. -/
def conflictCount (G : Graph n) (colors : Vector (Fin k) n) : Nat :=
  G.edges.countP fun e => colors.get e.1 = colors.get e.2

/-- Each conflict is met from both of its ends. -/
theorem sum_countP_sameColor (hG : G.Simple) (colors : Vector (Fin k) n) :
    (∑ v, (G.neighbors.get v).countP fun u => colors.get u = colors.get v) =
      2 * conflictCount G colors := by
  rw [Graph.sum_countP_neighbors hG (fun v u => decide (colors.get u = colors.get v))
    fun u v => by simp only [eq_comm], conflictCount]
  simp only [eq_comm]

/-- Counting conflicts from both ends and halving counts them once. -/
theorem conflictsOf_eq (hG : G.Simple) (colors : Vector (Fin k) n) :
    conflictsOf G colors = conflictCount G colors := by
  have hlength : ((List.finRange n).flatMap fun v =>
      (G.neighbors.get v).filter fun u => colors.get u = colors.get v).length =
        2 * conflictCount G colors := by
    rw [List.length_flatMap, ← Fin.sum_univ_def]
    simp only [← List.countP_eq_length_filter]
    exact sum_countP_sameColor hG colors
  rw [conflictsOf, hlength]
  exact Nat.mul_div_cancel_left _ Nat.two_pos

@[simp] theorem get_paletteOf (colors : Vector (Fin k) n) (v : Fin n) (c : Fin k) :
    (paletteOf G colors v).get c = (G.neighbors.get v).countP fun u => colors.get u = c :=
  Patch.get_ofFn _ c

/-- The conflicts after a vertex has been recoloured, from its palette. -/
theorem conflictCount_set (hG : G.Simple) (colors : Vector (Fin k) n) (v : Fin n) (new : Fin k) :
    (conflictCount G (colors.set v new v.isLt) : Int) =
      conflictCount G colors + delta (paletteOf G colors v) (colors.get v) new := by
  have hchange := Graph.countP_edges_change hG v
    (p := fun u w => decide (colors.get u = colors.get w))
    (q := fun u w => decide ((colors.set v new v.isLt).get u = (colors.set v new v.isLt).get w))
    (fun u w => by simp only [eq_comm]) (fun u w => by simp only [eq_comm])
    (fun u w hu hw => by rw [Patch.get_set_ne _ hu, Patch.get_set_ne _ hw])
  have hnew : (G.neighbors.get v).countP (fun w =>
      decide ((colors.set v new v.isLt).get v = (colors.set v new v.isLt).get w)) =
        (G.neighbors.get v).countP fun w => decide (colors.get w = new) := by
    apply List.countP_congr
    intro w hw
    rw [Patch.get_set_self, Patch.get_set_ne _ (hG.ne_of_adjacent hw).symm]
    simp only [eq_comm]
  have hold : (G.neighbors.get v).countP (fun w => decide (colors.get v = colors.get w)) =
      (G.neighbors.get v).countP fun w => decide (colors.get w = colors.get v) := by
    simp only [eq_comm]
  rw [hnew, hold] at hchange
  rw [delta, get_paletteOf, get_paletteOf]
  exact hchange

/-! ## Palettes -/

theorem get_shiftPalette (palette : Vector Nat k) {old new : Fin k} (h : old ≠ new) (c : Fin k) :
    (shiftPalette palette old new).get c =
      if c = new then palette.get new + 1
      else if c = old then palette.get old - 1
      else palette.get c := by
  simp only [shiftPalette, Patch.get_set, if_neg h.symm]

/-- Recolouring a vertex shifts the palettes of its neighbours and no other. -/
theorem paletteOf_set (hG : G.Simple) (colors : Vector (Fin k) n) (v : Fin n) {new : Fin k}
    (h : colors.get v ≠ new) (u : Fin n) :
    paletteOf G (colors.set v new v.isLt) u =
      if u ∈ G.neighbors.get v then shiftPalette (paletteOf G colors u) (colors.get v) new
      else paletteOf G colors u := by
  have hmem : v ∈ G.neighbors.get u ↔ u ∈ G.neighbors.get v := hG.adjacent_comm
  apply Patch.ext_get
  intro c
  have hchange := countP_change (hG.nodup u) (x := v)
    (p := fun w => decide (colors.get w = c))
    (q := fun w => decide ((colors.set v new v.isLt).get w = c))
    fun w hw => by rw [Patch.get_set_ne _ hw]
  simp only [Patch.get_set_self, decide_eq_true_eq, hmem] at hchange
  by_cases hu : u ∈ G.neighbors.get v
  · rw [if_pos hu, get_shiftPalette _ h, get_paletteOf, get_paletteOf, get_paletteOf,
      get_paletteOf]
    simp only [hu, true_and] at hchange
    -- the entry of the new colour gains `v`, that of the old one loses it
    by_cases hnew : c = new
    · subst hnew
      rw [if_pos rfl, if_neg h] at *
      omega
    · by_cases hold : c = colors.get v
      · subst hold
        rw [if_neg hnew, if_pos rfl]
        rw [if_pos rfl, if_neg (Ne.symm hnew)] at hchange
        omega
      · rw [if_neg hnew, if_neg hold]
        rw [if_neg (Ne.symm hold), if_neg (Ne.symm hnew)] at hchange
        exact hchange
  · rw [if_neg hu, get_paletteOf, get_paletteOf]
    simp only [hu, false_and, if_false] at hchange
    exact hchange

/-! ## Recolouring a vertex -/

theorem ofColors_palette (colors : Vector (Fin k) n) (v : Fin n) :
    (ofColors G colors).palette.get v = paletteOf G colors v :=
  Patch.get_ofFn _ v

theorem ofColors_marginals (colors : Vector (Fin k) n) (v : Fin n) :
    (ofColors G colors).marginals.get v = bestDelta (paletteOf G colors v) (colors.get v) := by
  show (Vector.ofFn _).get v = _
  rw [Patch.get_ofFn, Patch.get_ofFn]

theorem mk_congr {colors colors' : Vector (Fin k) n} {palette palette' : Vector (Vector Nat k) n}
    {marginals marginals' : Vector Int n} {conflicts conflicts' : Int} (hcolors : colors = colors')
    (hpalette : palette = palette') (hmarginals : marginals = marginals')
    (hconflicts : conflicts = conflicts') :
    (⟨k, colors, palette, marginals, conflicts⟩ : Coloring G) =
      ⟨k, colors', palette', marginals', conflicts'⟩ := by
  rw [hcolors, hpalette, hmarginals, hconflicts]

/-- Shifting the palettes of the neighbours turns the old palettes into the new ones. -/
theorem foldl_shiftPalette (hG : G.Simple) (colors : Vector (Fin k) n) (v : Fin n) {new : Fin k}
    (h : colors.get v ≠ new) :
    (G.neighbors.get v).foldl
      (fun palette (u : Fin n) =>
        palette.set u (shiftPalette (palette.get u) (colors.get v) new) u.isLt)
      (Vector.ofFn (paletteOf G colors)) =
        Vector.ofFn (paletteOf G (colors.set v new v.isLt)) := by
  apply Patch.ext_get
  intro u
  rw [Patch.get_patch (fun _ row => shiftPalette row (colors.get v) new) (hG.nodup v)]
  simp only [Patch.get_ofFn, paletteOf_set hG colors v h]

/-- Computing the marginals of the vertex and its neighbours again turns the old marginals into
the new ones. -/
theorem foldl_bestDelta (hG : G.Simple) (colors : Vector (Fin k) n) (v : Fin n) {new : Fin k}
    (h : colors.get v ≠ new) :
    (v :: G.neighbors.get v).foldl
      (fun marginals (u : Fin n) =>
        marginals.set u (bestDelta (paletteOf G (colors.set v new v.isLt) u)
          ((colors.set v new v.isLt).get u)) u.isLt)
      (Vector.ofFn fun u => bestDelta (paletteOf G colors u) (colors.get u)) =
        Vector.ofFn fun u => bestDelta (paletteOf G (colors.set v new v.isLt) u)
          ((colors.set v new v.isLt).get u) := by
  have hdistinct : (v :: G.neighbors.get v).Nodup :=
    List.nodup_cons.mpr ⟨hG.loopless v, hG.nodup v⟩
  apply Patch.ext_get
  intro u
  rw [Patch.get_patch (fun u _ => bestDelta (paletteOf G (colors.set v new v.isLt) u)
    ((colors.set v new v.isLt).get u)) hdistinct]
  simp only [Patch.get_ofFn]
  split
  · rfl
  · next hu =>
      -- neither the palette nor the colour of `u` has changed
      obtain ⟨huv, hnotin⟩ := not_or.mp (fun hmem => hu (List.mem_cons.mpr hmem))
      rw [paletteOf_set hG colors v h, if_neg hnotin, Patch.get_set_ne _ huv]

/-- **Recolouring a vertex patches the caches of a colouring into those of the new one.** -/
theorem recolor_ofColors (hG : G.Simple) (colors : Vector (Fin k) n) (v : Fin n) (new : Fin k) :
    (ofColors G colors).recolor v new = ofColors G (colors.set v new v.isLt) := by
  by_cases h : colors.get v = new
  · subst h
    rw [Patch.set_get]
    exact if_pos rfl
  · refine (if_neg h).trans ?_
    -- the palettes come first, because the new marginals are computed from them
    have hpalette := foldl_shiftPalette hG colors v h
    apply mk_congr
    · rfl
    · exact hpalette
    · simp only [ofColors, hpalette, Patch.get_ofFn]
      exact foldl_bestDelta hG colors v h
    · show (conflictsOf G colors : Int) +
        delta ((Vector.ofFn (paletteOf G colors)).get v) (colors.get v) new = _
      rw [Patch.get_ofFn, conflictsOf_eq hG, ← conflictCount_set hG, ← conflictsOf_eq hG]

/-! ## Marginals -/

theorem mem_otherColors {c c' : Fin k} : c' ∈ otherColors c ↔ c' ≠ c := by
  simp [otherColors]

theorem otherColors_eq_nil_iff (c : Fin k) : otherColors c = [] ↔ k = 1 := by
  simp only [List.eq_nil_iff_forall_not_mem, mem_otherColors, not_not]
  constructor
  · intro h
    have hsingle : Subsingleton (Fin k) := ⟨fun a b => (h a).trans (h b).symm⟩
    exact Nat.le_antisymm (Fin.subsingleton_iff_le_one.mp hsingle) c.pos
  · rintro rfl c'
    exact Subsingleton.elim c' c

theorem bestDelta_of_single {palette : Vector Nat k} (c : Fin k) (h : k = 1) :
    bestDelta palette c = 0 := by
  rw [bestDelta, (otherColors_eq_nil_iff c).mpr h]
  rfl

/-- With several colours the marginal is the least change that another colour makes. -/
theorem isLeast_bestDelta (palette : Vector Nat k) (c : Fin k) (h : 1 < k) :
    IsLeast {d | ∃ c', c' ≠ c ∧ d = delta palette c c'} (bestDelta palette c) := by
  have hmem : ∀ d, d ∈ (otherColors c).map (delta palette c) ↔
      ∃ c', c' ≠ c ∧ d = delta palette c c' := by
    intro d
    simp only [List.mem_map, mem_otherColors, eq_comm (a := d)]
  cases hmin : ((otherColors c).map (delta palette c)).min? with
  | none =>
      have hnil := List.map_eq_nil_iff.mp (List.min?_eq_none_iff.mp hmin)
      exact absurd ((otherColors_eq_nil_iff c).mp hnil) h.ne'
  | some d =>
      obtain ⟨hd, hleast⟩ := List.min?_eq_some_iff.mp hmin
      rw [bestDelta, hmin]
      constructor
      · exact (hmem d).mp hd
      · intro d' hd'
        exact hleast d' ((hmem d').mpr hd')

/-- With several colours the marginal of a vertex is the least change of the number of conflicts
that another colour makes. -/
theorem isLeast_marginals (hG : G.Simple) (colors : Vector (Fin k) n) (v : Fin n) (h : 1 < k) :
    IsLeast {d | ∃ c, c ≠ colors.get v ∧
      d = conflictCount G (colors.set v c v.isLt) - (conflictCount G colors : Int)}
      ((ofColors G colors).marginals.get v) := by
  have hdelta : ∀ c, delta (paletteOf G colors v) (colors.get v) c =
      conflictCount G (colors.set v c v.isLt) - (conflictCount G colors : Int) := by
    intro c
    rw [conflictCount_set hG]
    exact (add_sub_cancel_left _ _).symm
  have hleast := isLeast_bestDelta (paletteOf G colors v) (colors.get v) h
  simp only [hdelta] at hleast
  rw [ofColors_marginals]
  exact hleast

/-! ## Histories -/

/-- The list of colours after a move has been tried. -/
def paint (k : Nat) (colors : List Nat) (move : Recolor) : List Nat :=
  if move.color < k then colors.set move.node move.color else colors

theorem mutate_of_lt (C : Coloring G) {move : Recolor} (hnode : move.node < n)
    (hcolor : move.color < C.k) :
    Tracker.mutate C move =
      .ok (⟨move.node, C.colors.get ⟨move.node, hnode⟩⟩,
        C.recolor ⟨move.node, hnode⟩ ⟨move.color, hcolor⟩) := by
  apply Tracker.mutate_eq_ok_iff.mpr
  show C.applyRecolor move = _
  simp only [applyRecolor, checkIndex_of_lt hnode, checkIndex_of_lt hcolor]

theorem mutate_of_node_le (C : Coloring G) {move : Recolor} (h : n ≤ move.node) :
    Tracker.mutate C move = .error (.indexOutOfRange move.node n) := by
  apply Tracker.mutate_eq_error_iff.mpr
  show C.applyRecolor move = _
  simp only [applyRecolor, checkIndex_eq_error h]

theorem mutate_of_color_le (C : Coloring G) {move : Recolor} (hnode : move.node < n)
    (h : C.k ≤ move.color) :
    Tracker.mutate C move = .error (.indexOutOfRange move.color C.k) := by
  apply Tracker.mutate_eq_error_iff.mpr
  show C.applyRecolor move = _
  simp only [applyRecolor, checkIndex_of_lt hnode, checkIndex_eq_error h]

theorem mutate_of_le (C : Coloring G) {move : Recolor} (h : n ≤ move.node ∨ C.k ≤ move.color) :
    ∃ e, Tracker.mutate C move = .error e := by
  by_cases hnode : n ≤ move.node
  · exact ⟨_, C.mutate_of_node_le hnode⟩
  · exact ⟨_, C.mutate_of_color_le (Nat.not_le.mp hnode) (h.resolve_left hnode)⟩

theorem marginal_val (C : Coloring G) (v : Fin n) :
    Tracker.marginal C v.val = .ok (C.marginals.get v) :=
  bind_checkIndex_val v _

theorem assignment_set (colors : Vector (Fin k) n) (v : Fin n) (new : Fin k) :
    (colors.set v new v.isLt).toList.map Fin.val =
      (colors.toList.map Fin.val).set v.val new.val := by
  rw [Vector.toList_set, List.map_set]

theorem recolor_k (C : Coloring G) (v : Fin n) (new : Fin C.k) : (C.recolor v new).k = C.k := by
  unfold recolor
  dsimp only
  split <;> rfl

theorem assignment_recolor (C : Coloring G) (v : Fin n) (new : Fin C.k) :
    Tracker.assignment (C.recolor v new) = (Tracker.assignment C).set v.val new.val := by
  refine Eq.trans ?_ (assignment_set C.colors v new)
  by_cases h : C.colors.get v = new
  · rw [show C.recolor v new = C from if_pos h, ← h, Patch.set_get]
    rfl
  · rw [show C.recolor v new = _ from if_neg h]
    rfl

/-- A tried move acts on the colours, and the caches follow. -/
theorem attempt_ofColors (hG : G.Simple) (colors : Vector (Fin k) n) (move : Recolor) :
    ∃ colors' : Vector (Fin k) n,
      Tracker.attempt (ofColors G colors) move = ofColors G colors' ∧
      colors'.toList.map Fin.val = paint k (colors.toList.map Fin.val) move := by
  by_cases hcolor : move.color < k
  · rw [paint, if_pos hcolor]
    by_cases hnode : move.node < n
    · refine ⟨colors.set move.node ⟨move.color, hcolor⟩ hnode, ?_, ?_⟩
      · rw [Tracker.attempt_of_ok (mutate_of_lt (ofColors G colors) hnode hcolor)]
        exact recolor_ofColors hG colors ⟨move.node, hnode⟩ ⟨move.color, hcolor⟩
      · exact assignment_set colors ⟨move.node, hnode⟩ ⟨move.color, hcolor⟩
    · obtain ⟨e, he⟩ := mutate_of_le (ofColors G colors) (Or.inl (Nat.not_lt.mp hnode))
      refine ⟨colors, Tracker.attempt_of_error he, ?_⟩
      rw [List.set_eq_of_length_le]
      simpa using Nat.not_lt.mp hnode
  · obtain ⟨e, he⟩ := mutate_of_le (ofColors G colors) (Or.inr (Nat.not_lt.mp hcolor))
    exact ⟨colors, Tracker.attempt_of_error he, by rw [paint, if_neg hcolor]⟩

theorem replay_ofColors (hG : G.Simple) (colors : Vector (Fin k) n) (moves : List Recolor) :
    ∃ colors' : Vector (Fin k) n,
      Tracker.replay (ofColors G colors) moves = ofColors G colors' ∧
      colors'.toList.map Fin.val = moves.foldl (paint k) (colors.toList.map Fin.val) := by
  induction moves generalizing colors with
  | nil => exact ⟨colors, rfl, rfl⟩
  | cons move moves ih =>
      obtain ⟨colors₁, hattempt, hpaint⟩ := attempt_ofColors hG colors move
      obtain ⟨colors₂, hreplay, hpaints⟩ := ih colors₁
      refine ⟨colors₂, ?_, ?_⟩
      · rw [Tracker.replay_cons, hattempt, hreplay]
      · rw [hpaints, hpaint, List.foldl_cons]

/-- The colourings that can be made. -/
inductive Fresh : Coloring G → Prop
  | ofList {k : Nat} {colors : List Nat} {C : Coloring G} (h : ofList G k colors = .ok C) : Fresh C
  | uniform {k : Nat} {C : Coloring G} (h : uniform G k = .ok C) : Fresh C
  | random {k : Nat} {sampler : Sampler (Coloring G)} (h : random G k = .ok sampler)
      (draws : Draws) : Fresh (sampler.run draws).1

theorem exists_ofColors_of_ofList {k : Nat} {colors : List Nat} {C : Coloring G}
    (h : ofList G k colors = .ok C) :
    0 < k ∧ ∃ colors : Vector (Fin k) n, C = ofColors G colors := by
  unfold ofList at h
  by_cases hk : k = 0
  · rw [if_pos hk] at h
    cases h
  · refine ⟨Nat.pos_of_ne_zero hk, ?_⟩
    rw [if_neg hk] at h
    dsimp only [pure_bind] at h
    split at h
    · obtain ⟨colors', -, h⟩ := bind_eq_ok.mp h
      cases h
      exact ⟨colors', rfl⟩
    · cases h

theorem Fresh.exists_ofColors {C : Coloring G} (h : C.Fresh) :
    ∃ k, 0 < k ∧ ∃ colors : Vector (Fin k) n, C = ofColors G colors := by
  cases h with
  | ofList h => exact ⟨_, exists_ofColors_of_ofList h⟩
  | uniform h =>
      unfold Coloring.uniform at h
      split at h
      · next hk =>
          cases h
          exact ⟨_, hk, _, rfl⟩
      · cases h
  | random h draws =>
      unfold Coloring.random at h
      split at h
      · next hk =>
          cases h
          exact ⟨_, hk, _, rfl⟩
      · cases h

/-- A reachable colouring is the one that is built from its colours, and it has a colour. -/
theorem eq_ofColors_of_reachable (hG : G.Simple) {C : Coloring G}
    (h : Tracker.Reachable Coloring.Fresh C) : 0 < C.k ∧ C = ofColors G C.colors := by
  obtain ⟨C₀, moves, h₀, rfl⟩ := h
  obtain ⟨k, hk, colors, rfl⟩ := h₀.exists_ofColors
  obtain ⟨colors', hreplay, -⟩ := replay_ofColors hG colors moves
  rw [hreplay]
  exact ⟨hk, rfl⟩

theorem exists_ofColors_of_reachable (hG : G.Simple) {C : Coloring G}
    (h : Tracker.Reachable Coloring.Fresh C) :
    ∃ (k : Nat) (colors : Vector (Fin k) n), C = ofColors G colors :=
  ⟨C.k, C.colors, (eq_ofColors_of_reachable hG h).2⟩

theorem conflicts_of_reachable (hG : G.Simple) {C : Coloring G}
    (h : Tracker.Reachable Coloring.Fresh C) : C.conflicts = conflictCount G C.colors := by
  rw [← conflictsOf_eq hG]
  exact congrArg Coloring.conflicts (eq_ofColors_of_reachable hG h).2

end Coloring

open Coloring

/-- **The caches of a colouring are exact after any history.** A history gives its colours to the
vertices it names. After it the conflicts are the edges whose ends have the same colour, a palette
counts the neighbours of each colour, and the marginal of a vertex is the least change of the
number of conflicts that another colour makes, or zero if there is no other. Recomputing the
caches changes nothing. -/
theorem coloring_caches_exact {n : Nat} {G : Graph n} (hG : G.Constructed) {C₀ : Coloring G}
    (h₀ : C₀.Fresh) (moves : List Recolor) :
    let C := Tracker.replay C₀ moves
    C.k = C₀.k ∧ 0 < C.k ∧
    Tracker.assignment C = moves.foldl (paint C₀.k) (Tracker.assignment C₀) ∧
    Tracker.score C = conflictCount G C.colors ∧
    (∀ v c, (C.palette.get v).get c = (G.neighbors.get v).countP fun u => C.colors.get u = c) ∧
    (∀ v : Fin n, ∃ d, Tracker.marginal C v.val = .ok d ∧ (C.k = 1 → d = 0) ∧
      (1 < C.k → IsLeast {e | ∃ c, c ≠ C.colors.get v ∧
        e = conflictCount G (C.colors.set v c v.isLt) - (conflictCount G C.colors : Int)} d)) ∧
    Tracker.rebuild C = C := by
  intro C
  obtain ⟨k, hk, colors₀, rfl⟩ := h₀.exists_ofColors
  obtain ⟨colors, hreplay, hpaint⟩ := replay_ofColors hG.simple colors₀ moves
  have hC : C = ofColors G colors := hreplay
  clear_value C
  subst hC
  refine ⟨rfl, hk, hpaint, ?_, ?_, ?_, rfl⟩
  · show (conflictsOf G colors : Int) = _
    rw [conflictsOf_eq hG.simple]
    rfl
  · intro v c
    rw [ofColors_palette]
    exact get_paletteOf colors v c
  · intro v
    refine ⟨_, marginal_val _ v, ?_, ?_⟩
    · intro h
      rw [ofColors_marginals]
      exact bestDelta_of_single _ h
    · intro h
      exact isLeast_marginals hG.simple colors v h

/-- A triangle in one of two colours. -/
def plainTriangle : Coloring (Graph.complete 3) :=
  ofColors (Graph.complete 3) (Vector.replicate 3 (⟨0, Nat.two_pos⟩ : Fin 2))

/-- Every vertex of a triangle is recoloured, one of them back again, with a move to the colour it
has and a refused move in between. -/
theorem coloring_caches_exact_plainTriangle :
    (Graph.complete 3).Constructed ∧ plainTriangle.Fresh ∧
    (let C := Tracker.replay plainTriangle [⟨0, 1⟩, ⟨0, 1⟩, ⟨1, 2⟩, ⟨1, 1⟩, ⟨2, 1⟩, ⟨1, 0⟩];
      Tracker.assignment C = [1, 0, 1] ∧ Tracker.score C = 1 ∧ Tracker.marginal C 1 = .ok 2 ∧
        IsLeast {e | ∃ c, c ≠ C.colors.get 1 ∧
          e = conflictCount (Graph.complete 3) (C.colors.set 1 c (by decide)) -
            (conflictCount (Graph.complete 3) C.colors : Int)} 2) := by
  have hfresh : plainTriangle.Fresh := .uniform (k := 2) rfl
  have h := coloring_caches_exact (.complete 3) hfresh
    [⟨0, 1⟩, ⟨0, 1⟩, ⟨1, 2⟩, ⟨1, 1⟩, ⟨2, 1⟩, ⟨1, 0⟩]
  obtain ⟨hk, -, hassignment, hscore, -, hmarginal, -⟩ := h
  obtain ⟨d, hd, -, hleast⟩ := hmarginal 1
  have hvalue : Tracker.marginal (Tracker.replay plainTriangle
      [⟨0, 1⟩, ⟨0, 1⟩, ⟨1, 2⟩, ⟨1, 1⟩, ⟨2, 1⟩, ⟨1, 0⟩]) 1 = .ok 2 := by decide +kernel
  obtain rfl : d = 2 := Except.ok.inj (hd.symm.trans hvalue)
  refine ⟨.complete 3, hfresh, ?_, ?_, hd, hleast ?_⟩
  · exact hassignment.trans (by decide +kernel)
  · exact hscore.trans (by decide +kernel)
  · rw [hk]
    exact Nat.one_lt_two

end Winners

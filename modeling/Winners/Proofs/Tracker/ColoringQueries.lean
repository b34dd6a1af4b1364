import Winners.Proofs.Tracker.ColoringDescent

set_option autoImplicit false

/-! # Queries of colourings

What the queries of a colouring tell fits together, in every colouring that can be reached
(`coloring_queries_agree`). They read its caches in different ways: the conflicts of a vertex and
the change of the score are entries of its palette, the number of colours around it counts the
entries that are not zero, and the marginal has been computed before. The two searches are those of
a list for its first least or greatest entry, so they find the lowest of several.
-/

namespace Winners

namespace Coloring

variable {n k : Nat} {G : Graph n}

/-! ## Changes of the score -/

theorem recolorDelta_val (C : Coloring G) (v : Fin n) (c : Fin C.k) :
    C.recolorDelta v c = .ok (C.change v c) :=
  (bind_checkIndex_val v _).trans (bind_checkIndex_val c _)

theorem recolor_conflicts (C : Coloring G) (v : Fin n) (c : Fin C.k) :
    (C.recolor v c).conflicts = C.conflicts + C.change v c := by
  by_cases h : C.colors.get v = c
  · rw [show C.recolor v c = C from if_pos h, ← h, change_self, add_zero]
  · rw [show C.recolor v c = _ from if_neg h]
    rfl

/-- **The announced change is the one that a move causes**, and what has no change announced is
refused as a move for the same reason. -/
theorem recolorDelta_eq (C : Coloring G) (v c : Nat) :
    C.recolorDelta v c =
      (Tracker.mutate C ⟨v, c⟩).map fun r => Tracker.score r.2 - Tracker.score C := by
  by_cases hv : v < n
  · by_cases hc : c < C.k
    · rw [mutate_of_lt C hv hc]
      refine (recolorDelta_val C ⟨v, hv⟩ ⟨c, hc⟩).trans (congrArg Except.ok ?_)
      show _ = (C.recolor ⟨v, hv⟩ ⟨c, hc⟩).conflicts - C.conflicts
      rw [recolor_conflicts, add_sub_cancel_left]
    · have hle : C.k ≤ c := Nat.not_lt.mp hc
      rw [mutate_of_color_le C hv hle]
      exact (bind_checkIndex_of_lt hv _).trans (bind_checkIndex_of_le hle _)
  · have hle : n ≤ v := Nat.not_lt.mp hv
    rw [mutate_of_node_le C hle]
    exact bind_checkIndex_of_le hle _

/-! ## The best recolouring -/

theorem bestColor_eq_none_iff (C : Coloring G) (v : Fin n) : C.bestColor v = none ↔ C.k = 1 := by
  rw [bestColor_eq, Option.map_eq_none_iff, List.argmin_eq_none, otherColors_eq_nil_iff]

/-- **The best recolouring of a vertex**: the other colour with the least change of the score, the
lowest of several. -/
structure BestRecoloring (C : Coloring G) (v : Fin n) (c : Fin C.k) (d : Int) : Prop where
  other : c ≠ C.colors.get v
  change : C.recolorDelta v c = .ok d
  least : ∀ c' : Fin C.k, c' ≠ C.colors.get v →
    ∃ d', C.recolorDelta v c' = .ok d' ∧ d ≤ d' ∧ (c' < c → d < d')
  marginal : Tracker.marginal C v.val = .ok d

/-- A reachable colouring keeps for each vertex the least change that its palette has. -/
theorem marginals_of_reachable (hG : G.Simple) {C : Coloring G}
    (h : Tracker.Reachable Coloring.Fresh C) (v : Fin n) :
    C.marginals.get v = bestDelta (C.palette.get v) (C.colors.get v) := by
  obtain ⟨k, colors, rfl⟩ := exists_ofColors_of_reachable hG h
  exact Patch.get_ofFn _ v

theorem bestDelta_eq_of_least {C : Coloring G} {v : Fin n} {c : Fin C.k}
    (hother : c ≠ C.colors.get v)
    (hleast : ∀ c', c' ≠ C.colors.get v → C.change v c ≤ C.change v c') :
    bestDelta (C.palette.get v) (C.colors.get v) = C.change v c := by
  have hk : 1 < C.k := by
    have hone := mt (otherColors_eq_nil_iff (C.colors.get v)).mpr
      (List.ne_nil_of_mem (mem_otherColors.mpr hother))
    have := c.pos
    omega
  refine (isLeast_bestDelta _ _ hk).unique ⟨⟨c, hother, rfl⟩, ?_⟩
  rintro d ⟨c', hc', rfl⟩
  exact hleast c' hc'

theorem bestRecoloring_of_bestColor (hG : G.Simple) {C : Coloring G}
    (hC : Tracker.Reachable Coloring.Fresh C) {v : Fin n} {c : Fin C.k} {d : Int}
    (h : C.bestColor v = some (c, d)) : BestRecoloring C v c d := by
  rw [bestColor_eq, Option.map_eq_some_iff] at h
  obtain ⟨c, hfound, heq⟩ := h
  cases heq
  have hother : c ≠ C.colors.get v := mem_otherColors.mp (List.argmin_mem hfound)
  have hleast : ∀ c', c' ≠ C.colors.get v → C.change v c ≤ C.change v c' :=
    fun c' hc' => List.le_of_mem_argmin (mem_otherColors.mpr hc') hfound
  have hascending : (otherColors (C.colors.get v)).Pairwise (· < ·) :=
    (List.pairwise_lt_finRange C.k).filter _
  refine ⟨hother, recolorDelta_val C v c, ?_, ?_⟩
  · intro c' hc'
    exact ⟨_, recolorDelta_val C v c', hleast c' hc',
      lt_of_mem_argmin hascending hfound (mem_otherColors.mpr hc')⟩
  · rw [marginal_val, marginals_of_reachable hG hC, bestDelta_eq_of_least hother hleast]

/-! ## The most conflicted vertex -/

/-- The search is one for the first greatest entry among the vertices that have conflicts. -/
theorem mostConflicted_eq (C : Coloring G) :
    C.mostConflicted = (((List.finRange n).filter (0 < C.conflictsWith ·)).argmax
      C.conflictsWith).map fun v => (v, C.conflictsWith v) := by
  rw [mostConflicted, List.argmax, List.foldl_filter,
    ← List.foldl_hom (Option.map fun v => (v, C.conflictsWith v))]
  · rfl
  · intro best v
    by_cases hv : 0 < C.conflictsWith v
    · rw [if_pos (decide_eq_true hv)]
      cases best with
      | none => exact if_pos hv
      | some most =>
          rw [List.argAux, apply_ite (Option.map _)]
          rfl
    · rw [if_neg (mt of_decide_eq_true hv)]
      exact if_neg fun hless => hv (Nat.zero_lt_of_lt hless)

theorem mostConflicted_eq_none_iff (C : Coloring G) :
    C.mostConflicted = none ↔ ∑ v, C.conflictsWith v = 0 := by
  rw [mostConflicted_eq, Option.map_eq_none_iff, List.argmax_eq_none, List.filter_eq_nil_iff,
    Finset.sum_eq_zero_iff]
  simp

/-- **The most conflicted vertex**, the lowest of several. -/
structure MostConflicted (C : Coloring G) (v : Fin n) (count : Nat) : Prop where
  conflictsAt : C.conflictsAt v.val = .ok count
  greatest : ∀ u : Fin n, ∃ count', C.conflictsAt u.val = .ok count' ∧ count' ≤ count ∧
    (u < v → count' < count)

theorem conflictsAt_val (C : Coloring G) (v : Fin n) :
    C.conflictsAt v.val = .ok (C.conflictsWith v) :=
  bind_checkIndex_val v _

theorem mostConflicted_of_eq_some {C : Coloring G} {v : Fin n} {count : Nat}
    (h : C.mostConflicted = some (v, count)) : MostConflicted C v count := by
  rw [mostConflicted_eq, Option.map_eq_some_iff] at h
  obtain ⟨v, hfound, heq⟩ := h
  cases heq
  have hascending : ((List.finRange n).filter (0 < C.conflictsWith ·)).Pairwise (· < ·) :=
    (List.pairwise_lt_finRange n).filter _
  have hpos : 0 < C.conflictsWith v :=
    of_decide_eq_true (List.mem_filter.mp (List.argmax_mem hfound)).2
  refine ⟨conflictsAt_val C v, fun u => ⟨_, conflictsAt_val C u, ?_⟩⟩
  -- a vertex without conflicts is not searched, but has less than any that is
  by_cases hu : 0 < C.conflictsWith u
  · have hmem : u ∈ (List.finRange n).filter (0 < C.conflictsWith ·) :=
      List.mem_filter.mpr ⟨List.mem_finRange u, decide_eq_true hu⟩
    exact ⟨List.le_of_mem_argmax hmem hfound, lt_of_mem_argmax hascending hfound hmem⟩
  · have hless : C.conflictsWith u < C.conflictsWith v := (Nat.not_lt.mp hu).trans_lt hpos
    exact ⟨hless.le, fun _ => hless⟩

theorem sum_conflictsWith_of_reachable (hG : G.Simple) {C : Coloring G}
    (h : Tracker.Reachable Coloring.Fresh C) :
    ∑ v, C.conflictsWith v = 2 * conflictCount G C.colors := by
  obtain ⟨k, colors, rfl⟩ := exists_ofColors_of_reachable hG h
  exact sum_conflictsWith hG colors

theorem isProper_iff (hG : G.Simple) {C : Coloring G} (h : Tracker.Reachable Coloring.Fresh C) :
    C.isProper = true ↔ conflictCount G C.colors = 0 := by
  rw [isProper, beq_iff_eq, conflicts_of_reachable hG h, Int.natCast_eq_zero]

/-! ## Saturation -/

/-- The entries of a palette that are not zero are those of the colours around the vertex. -/
theorem countP_paletteOf (colors : Vector (Fin k) n) (v : Fin n) :
    (paletteOf G colors v).toList.countP (0 < ·) =
      ((G.neighbors.get v).toFinset.image colors.get).card := by
  rw [paletteOf, Vector.toList_ofFn, List.ofFn_eq_map, List.countP_map,
    List.countP_eq_length_filter,
    ← List.toFinset_card_of_nodup ((List.nodup_finRange k).filter _)]
  congr 1
  ext c
  simp

theorem card_image_colors_le (colors : Vector (Fin k) n) (v : Fin n) :
    ((G.neighbors.get v).toFinset.image colors.get).card ≤ min k (G.neighbors.get v).length := by
  refine le_min ?_ (Finset.card_image_le.trans (List.toFinset_card_le _))
  exact (Finset.card_le_univ _).trans (Fintype.card_fin k).le

theorem saturation_val (hG : G.Simple) {C : Coloring G} (h : Tracker.Reachable Coloring.Fresh C)
    (v : Fin n) :
    C.saturation v.val = .ok ((G.neighbors.get v).toFinset.image C.colors.get).card := by
  obtain ⟨k, colors, rfl⟩ := exists_ofColors_of_reachable hG h
  refine (bind_checkIndex_val v _).trans (congrArg Except.ok ?_)
  rw [ofColors_palette]
  exact countP_paletteOf colors v

/-! ## Agreement -/

/-- **Queries that agree with each other.** -/
structure QueriesAgree (C : Coloring G) : Prop where
  /-- Each conflict is met from both of its ends. -/
  conflictsAt : ∃ count : Fin n → Nat, (∀ v : Fin n, C.conflictsAt v.val = .ok (count v)) ∧
    ∑ v, (count v : Int) = 2 * C.conflicts
  proper : C.isProper = true ↔ Tracker.scoreFromScratch C = 0
  unconflicted : C.mostConflicted = none ↔ C.isProper = true
  mostConflicted : ∀ v count, C.mostConflicted = some (v, count) → MostConflicted C v count
  /-- The announced change is the one that a move causes, or both are refused. -/
  recolorDelta : ∀ v c : Nat, C.recolorDelta v c =
    (Tracker.mutate C ⟨v, c⟩).map fun r => Tracker.score r.2 - Tracker.score C
  bestRecoloring : ∀ v : Fin n, ∃ best, C.bestRecoloring v.val = .ok best ∧
    (best = none ↔ C.k = 1) ∧ ∀ c d, best = some (c, d) → BestRecoloring C v c d
  /-- The colours around a vertex, each counted once. -/
  saturation : ∀ v : Fin n, ∃ count degree, C.saturation v.val = .ok count ∧
    count = ((G.neighbors.get v).toFinset.image C.colors.get).card ∧
    G.degreeAt v.val = .ok degree ∧ count ≤ min C.k degree

end Coloring

/-! ## Main statement -/

open Coloring

/-- **The queries of a colouring agree**, whatever recolourings have led to it. -/
theorem coloring_queries_agree {n : Nat} {G : Graph n} (hG : G.Constructed) {C : Coloring G}
    (hC : Tracker.Reachable Coloring.Fresh C) : C.QueriesAgree where
  conflictsAt := by
    refine ⟨C.conflictsWith, conflictsAt_val C, ?_⟩
    rw [conflicts_of_reachable hG.simple hC]
    exact_mod_cast sum_conflictsWith_of_reachable hG.simple hC
  proper := (isProper_iff hG.simple hC).trans Int.natCast_eq_zero.symm
  unconflicted := by
    rw [mostConflicted_eq_none_iff, sum_conflictsWith_of_reachable hG.simple hC,
      isProper_iff hG.simple hC]
    omega
  mostConflicted := fun _ _ => mostConflicted_of_eq_some
  recolorDelta := recolorDelta_eq C
  bestRecoloring := fun v => ⟨_, bind_checkIndex_val v _, bestColor_eq_none_iff C v,
    fun _ _ => bestRecoloring_of_bestColor hG.simple hC⟩
  saturation := fun v => ⟨_, _, saturation_val hG.simple hC v, rfl,
    hG.simple.canonical.degreeAt v, card_image_colors_le C.colors v⟩

/-- A path in the first of three colours. -/
def plainPath : Coloring (Graph.path 4) :=
  ofColors (Graph.path 4) (Vector.replicate 4 (⟨0, by decide⟩ : Fin 3))

/-- Both inner vertices have two conflicts, and either of the other colours takes them away. The
lower vertex and the lower colour are found. -/
theorem coloring_queries_agree_plainPath :
    (Graph.path 4).Constructed ∧ plainPath.Fresh ∧ plainPath.isProper = false ∧
      plainPath.mostConflicted = some (1, 2) ∧ MostConflicted plainPath 1 2 ∧
      plainPath.bestRecoloring 1 = .ok (some ((1 : Fin 3), -2)) ∧
      BestRecoloring plainPath 1 (1 : Fin 3) (-2) ∧ plainPath.saturation 1 = .ok 1 := by
  have hfresh : plainPath.Fresh := .uniform (k := 3) rfl
  have h := coloring_queries_agree (.path 4) (.of_start hfresh)
  have hmost : plainPath.mostConflicted = some (1, 2) := by decide +kernel
  have hbest : plainPath.bestRecoloring 1 = .ok (some ((1 : Fin 3), -2)) := by decide +kernel
  obtain ⟨best, hfound, -, hbestRecoloring⟩ := h.bestRecoloring 1
  obtain ⟨count, -, hsaturation, hcount, -⟩ := h.saturation 1
  refine ⟨.path 4, hfresh, by decide +kernel, hmost, h.mostConflicted 1 2 hmost, hbest, ?_, ?_⟩
  · exact hbestRecoloring _ _ (Except.ok.inj (hfound.symm.trans hbest))
  · rw [show (1 : Nat) = ((1 : Fin 4) : Nat) from rfl, hsaturation, hcount]
    decide +kernel

end Winners

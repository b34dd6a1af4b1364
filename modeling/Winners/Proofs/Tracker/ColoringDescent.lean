import Winners.Proofs.Graph.Queries
import Winners.Proofs.Tracker.Undo
import Winners.Tracker.Descent
import Mathlib.Data.Int.ConditionallyCompleteOrder

set_option autoImplicit false

/-! # Polished colourings

Each recolouring of a descent lowers the number of conflicts, so there are no more of them than
there are conflicts to begin with, and the last colouring is one that no single recolouring
improves.

There every vertex has a colour that is the rarest among its neighbours, since a rarer one would
improve the colouring. The neighbours of all colours together are as many as the degree, so of
those with the rarest of `k` colours there are at most a `k`-th of it (`mul_conflictsWith_le`).
Summed over all vertices this counts each conflict and each edge twice.
-/

namespace Winners

namespace Coloring

open Counting

variable {n k : Nat} {G : Graph n}

/-! ## The best recolouring -/

/-- The change of the score when a vertex gets a colour. -/
def change (C : Coloring G) (v : Fin n) (c : Fin C.k) : Int :=
  delta (C.palette.get v) (C.colors.get v) c

theorem change_self (C : Coloring G) (v : Fin n) : C.change v (C.colors.get v) = 0 :=
  Int.sub_self _

/-- What is found in a list of colours: one with the least change, if there is any. -/
inductive Cheapest (C : Coloring G) (v : Fin n) (colors : List (Fin C.k)) :
    Option (Fin C.k × Int) → Prop
  | none (h : colors = []) : Cheapest C v colors none
  | some {c : Fin C.k} (hc : c ∈ colors) (h : ∀ c' ∈ colors, C.change v c ≤ C.change v c') :
      Cheapest C v colors (some (c, C.change v c))

/-- The search among the other colours is one for the first least change. -/
theorem bestColor_eq (C : Coloring G) (v : Fin n) :
    C.bestColor v = ((otherColors (C.colors.get v)).argmin (C.change v)).map
      fun c => (c, C.change v c) := by
  rw [bestColor, List.argmin, ← List.foldl_hom (Option.map fun c => (c, C.change v c))]
  · rfl
  · intro best color
    cases best with
    | none => rfl
    | some least =>
        rw [List.argAux, apply_ite (Option.map _)]
        rfl

theorem cheapest_bestColor (C : Coloring G) (v : Fin n) :
    Cheapest C v (otherColors (C.colors.get v)) (C.bestColor v) := by
  rw [bestColor_eq]
  cases hfound : (otherColors (C.colors.get v)).argmin (C.change v) with
  | none => exact .none (List.argmin_eq_none.mp hfound)
  | some c =>
      exact .some (List.argmin_mem hfound) fun c' hc' => List.le_of_mem_argmin hc' hfound

/-- What is found among the moves of the first vertices: one with the least change, if that is
less than zero. The last argument is what a move must fall short of to take its place. -/
inductive Leading (C : Coloring G) (count : Nat) : Option (Fin n × Fin C.k × Int) → Int → Prop
  | none (h : ∀ v : Fin n, v.val < count → ∀ c, 0 ≤ C.change v c) : Leading C count none 0
  | some {v : Fin n} {c : Fin C.k} (hless : C.change v c < 0)
      (h : ∀ v' : Fin n, v'.val < count → ∀ c', C.change v c ≤ C.change v' c') :
      Leading C count (some (v, c, C.change v c)) (C.change v c)

section

variable {C : Coloring G} {v : Fin n} {best : Option (Fin n × Fin C.k × Int)} {least : Int}

/-- The colour that a vertex has is no exception, as it changes nothing. -/
theorem le_change (hleast : least ≤ 0)
    (h : ∀ c ∈ otherColors (C.colors.get v), least ≤ C.change v c) (c : Fin C.k) :
    least ≤ C.change v c := by
  by_cases hc : c = C.colors.get v
  · rw [hc, change_self]
    exact hleast
  · exact h c (mem_otherColors.mpr hc)

theorem Leading.nonpos {count : Nat} (h : Leading C count best least) : least ≤ 0 := by
  cases h with
  | none => exact le_rfl
  | some hless => exact hless.le

theorem Leading.least_le {count : Nat} (h : Leading C count best least) {v : Fin n}
    (hv : v.val < count) (c : Fin C.k) : least ≤ C.change v c := by
  cases h with
  | none h => exact h v hv c
  | some _ h => exact h v hv c

theorem le_change_of_lt_succ (hleast : least ≤ 0)
    (hbefore : ∀ v' : Fin n, v'.val < v → ∀ c, least ≤ C.change v' c)
    (hv : ∀ c ∈ otherColors (C.colors.get v), least ≤ C.change v c) (v' : Fin n)
    (hlt : v'.val < v.val + 1) (c : Fin C.k) : least ≤ C.change v' c := by
  rcases Nat.lt_succ_iff_lt_or_eq.mp hlt with hlt | heq
  · exact hbefore v' hlt c
  · rw [Fin.ext heq]
    exact le_change hleast hv c

/-- The next vertex has no better move. -/
theorem Leading.keep (h : Leading C v best least)
    (hv : ∀ c ∈ otherColors (C.colors.get v), least ≤ C.change v c) :
    Leading C (v.val + 1) best least := by
  have hall := le_change_of_lt_succ h.nonpos (fun _ hlt => h.least_le hlt) hv
  cases h with
  | none => exact .none hall
  | some hless => exact .some hless hall

/-- The next vertex has a better move. -/
theorem Leading.take (h : Leading C v best least) {c : Fin C.k} (hless : C.change v c < least)
    (hv : ∀ c' ∈ otherColors (C.colors.get v), C.change v c ≤ C.change v c') :
    Leading C (v.val + 1) (.some (v, c, C.change v c)) (C.change v c) := by
  have hnegative : C.change v c < 0 := hless.trans_le h.nonpos
  refine .some hnegative (le_change_of_lt_succ hnegative.le ?_ hv)
  exact fun _ hlt c' => hless.le.trans (h.least_le hlt c')

theorem Leading.step (h : Leading C v best least) {c : Fin C.k}
    (hv : ∀ c' ∈ otherColors (C.colors.get v), C.change v c ≤ C.change v c') {takes : Prop}
    [Decidable takes] (htakes : takes ↔ C.change v c < least) : ∃ least', Leading C (v.val + 1)
      (if takes then .some (v, c, C.change v c) else best) least' := by
  split
  · next hnew => exact ⟨_, h.take (htakes.mp hnew) hv⟩
  · next hold =>
      have hle : least ≤ C.change v c := not_lt.mp (mt htakes.mpr hold)
      exact ⟨_, h.keep fun c' hc' => hle.trans (hv c' hc')⟩

end

theorem leading_bestMove (C : Coloring G) : ∃ least, Leading C n C.bestMove least := by
  unfold bestMove
  apply foldl_finRange (Q := fun count best => ∃ least, Leading C count best least)
  · exact ⟨0, .none fun v hv => absurd hv v.val.not_lt_zero⟩
  · rintro v best ⟨least, hbest⟩
    have hcheapest := cheapest_bestColor C v
    generalize C.bestColor v = found at hcheapest ⊢
    cases hcheapest with
    | none hnone =>
        refine ⟨least, hbest.keep ?_⟩
        rw [hnone]
        exact List.forall_mem_nil _
    | some _ hmost =>
        -- what the move is compared with depends on whether one has been found
        cases hbest with
        | none h => exact (Leading.none h).step hmost Iff.rfl
        | some hless h => exact (Leading.some hless h).step hmost Iff.rfl

/-! ## The course of a descent -/

theorem change_ofColors (colors : Vector (Fin k) n) (v : Fin n) (c : Fin k) :
    (ofColors G colors).change v c = delta (paletteOf G colors v) (colors.get v) c :=
  congrArg (delta · (colors.get v) c) (ofColors_palette colors v)

/-- A descent makes the moves of one list, as far as its budget goes. Each of them takes a conflict
away, and after the last one none would. -/
theorem exists_recolorings (hG : G.Simple) (colors : Vector (Fin k) n) :
    ∃ (moves undos : List Recolor) (last : Vector (Fin k) n),
      Tracker.mutateAll (ofColors G colors) moves = .ok (undos, ofColors G last) ∧
      (∀ count budget, moves.length ≤ budget →
        recolorings count budget (ofColors G colors) =
          (count + moves.length, ofColors G last)) ∧
      (∀ v c, 0 ≤ (ofColors G last).change v c) ∧
      moves.length + conflictCount G last ≤ conflictCount G colors := by
  -- by induction on the number of conflicts, which each recolouring lowers
  induction hconflicts : conflictCount G colors using Nat.strong_induction_on
    generalizing colors with
  | _ conflicts ih =>
    subst hconflicts
    obtain ⟨least, hbest⟩ := leading_bestMove (ofColors G colors)
    generalize hmove : (ofColors G colors).bestMove = move at hbest
    cases hbest with
    | none hnone =>
        refine ⟨[], [], colors, rfl, ?_, fun v => hnone v v.isLt, (Nat.zero_add _).le⟩
        intro count budget _
        cases budget with
        | zero => rfl
        | succ budget =>
            rw [recolorings, hmove]
            rfl
    | @some v c hless _ =>
        have hrecolor : (ofColors G colors).recolor v c = ofColors G (colors.set v c v.isLt) :=
          recolor_ofColors hG colors v c
        have hfewer : conflictCount G (colors.set v c v.isLt) < conflictCount G colors := by
          have hdelta := (change_ofColors colors v c).symm.trans_lt hless
          have hset := conflictCount_set hG colors v c
          omega
        obtain ⟨moves, undos, last, hmoves, hrun, hend, hle⟩ := ih _ hfewer _ rfl
        refine ⟨⟨v, c⟩ :: moves, undos ++ [⟨v, colors.get v⟩], last, ?_, ?_, hend, ?_⟩
        · refine Tracker.mutateAll_cons_eq_ok.mpr ⟨_, _, undos, ?_, hmoves, rfl⟩
          rw [← hrecolor]
          exact mutate_of_lt _ v.isLt c.isLt
        · intro count budget hbudget
          cases budget with
          | zero => exact absurd hbudget (Nat.not_succ_le_zero _)
          | succ budget =>
              rw [recolorings, hmove]
              dsimp only
              rw [hrecolor, hrun _ _ (Nat.le_of_succ_le_succ hbudget), List.length_cons,
                Nat.add_right_comm, Nat.add_assoc]
        · rw [List.length_cons]
          omega

/-! ## Polished colourings -/

/-- The neighbours of a vertex have all its conflicts among them, as many as share its colour. -/
theorem conflictsWith_ofColors (colors : Vector (Fin k) n) (v : Fin n) :
    (ofColors G colors).conflictsWith v =
      (G.neighbors.get v).countP fun u => colors.get u = colors.get v := by
  rw [← get_paletteOf, ← ofColors_palette]
  rfl

/-- Each conflict is met from both of its ends. -/
theorem sum_conflictsWith (hG : G.Simple) (colors : Vector (Fin k) n) :
    ∑ v, (ofColors G colors).conflictsWith v = 2 * conflictCount G colors := by
  simp only [conflictsWith_ofColors]
  exact sum_countP_sameColor hG colors

/-- **Of `k` colours the rarest is that of a `k`-th of the neighbours at most.** -/
theorem mul_conflictsWith_le {colors : Vector (Fin k) n} {v : Fin n}
    (h : ∀ c, 0 ≤ (ofColors G colors).change v c) :
    k * (ofColors G colors).conflictsWith v ≤ (G.neighbors.get v).length := by
  have hrarest : ∀ c, (ofColors G colors).conflictsWith v ≤
      (G.neighbors.get v).countP fun u => colors.get u = c := by
    intro c
    have hc := h c
    rw [change_ofColors, delta, get_paletteOf, get_paletteOf, ← conflictsWith_ofColors] at hc
    omega
  calc k * (ofColors G colors).conflictsWith v
      = ∑ _c : Fin k, (ofColors G colors).conflictsWith v := by simp
    _ ≤ ∑ c, (G.neighbors.get v).countP fun u => colors.get u = c :=
        Finset.sum_le_sum fun c _ => hrarest c
    _ = (G.neighbors.get v).length := sum_countP_eq_length _ _

/-- **A colouring that no single recolouring improves**, and what that is worth. -/
structure Polished (C : Coloring G) : Prop where
  marginal : ∀ v : Fin n, ∃ d, Tracker.marginal C v.val = .ok d ∧ 0 ≤ d
  conflictsAt : ∀ v : Fin n, ∃ conflicts degree, C.conflictsAt v = .ok conflicts ∧
    G.degreeAt v = .ok degree ∧ C.k * conflicts ≤ degree
  conflicts : C.k * C.conflicts ≤ G.edgeCount
  proper : G.maxDegree < C.k → C.isProper = true ∧
    ∀ u v, G.Adjacent u v → C.colors.get u ≠ C.colors.get v

theorem bestDelta_nonneg {palette : Vector Nat k} {old : Fin k}
    (h : ∀ new, 0 ≤ delta palette old new) : 0 ≤ bestDelta palette old := by
  rw [bestDelta]
  cases hmin : ((otherColors old).map (delta palette old)).min? with
  | none => exact le_rfl
  | some d =>
      obtain ⟨new, -, rfl⟩ := List.mem_map.mp (List.min?_eq_some_iff.mp hmin).1
      exact h new

theorem mul_conflictCount_le (hG : G.Simple) {colors : Vector (Fin k) n}
    (h : ∀ v c, 0 ≤ (ofColors G colors).change v c) :
    k * conflictCount G colors ≤ G.edgeCount := by
  have hboth : 2 * (k * conflictCount G colors) ≤ 2 * G.edgeCount := by
    calc 2 * (k * conflictCount G colors)
        = ∑ v, k * (ofColors G colors).conflictsWith v := by
          rw [← Finset.mul_sum, sum_conflictsWith hG]
          ring
      _ ≤ ∑ v, (G.neighbors.get v).length :=
          Finset.sum_le_sum fun v _ => mul_conflictsWith_le (h v)
      _ = 2 * G.edgeCount := by rw [Graph.sum_length_neighbors hG, Graph.edgeCount_eq hG]
  exact Nat.le_of_mul_le_mul_left hboth Nat.two_pos

theorem conflictsWith_eq_zero {colors : Vector (Fin k) n} {v : Fin n} (hk : G.maxDegree < k)
    (h : ∀ c, 0 ≤ (ofColors G colors).change v c) : (ofColors G colors).conflictsWith v = 0 := by
  have hless : k * (ofColors G colors).conflictsWith v < k * 1 := by
    calc k * (ofColors G colors).conflictsWith v
        ≤ (G.neighbors.get v).length := mul_conflictsWith_le h
      _ ≤ G.maxDegree := Graph.length_neighbors_le_maxDegree v
      _ < k := hk
      _ = k * 1 := (Nat.mul_one k).symm
  exact Nat.lt_one_iff.mp (Nat.lt_of_mul_lt_mul_left hless)

theorem polished_ofColors (hG : G.Simple) {colors : Vector (Fin k) n}
    (h : ∀ v c, 0 ≤ (ofColors G colors).change v c) : (ofColors G colors).Polished where
  marginal v := by
    refine ⟨_, marginal_val _ v, ?_⟩
    rw [ofColors_marginals]
    apply bestDelta_nonneg
    intro c
    rw [← change_ofColors]
    exact h v c
  conflictsAt v :=
    ⟨_, _, bind_checkIndex_val v _, hG.canonical.degreeAt v, mul_conflictsWith_le (h v)⟩
  conflicts := by
    show (k : Int) * (conflictsOf G colors : Nat) ≤ G.edgeCount
    rw [conflictsOf_eq hG]
    exact_mod_cast mul_conflictCount_le hG h
  proper hk := by
    have hnone : ∀ v, (ofColors G colors).conflictsWith v = 0 :=
      fun v => conflictsWith_eq_zero hk (h v)
    constructor
    · have hsum := sum_conflictsWith hG colors
      simp only [hnone, Finset.sum_const_zero] at hsum
      have hzero : conflictsOf G colors = 0 := by
        rw [conflictsOf_eq hG]
        omega
      exact beq_iff_eq.mpr (congrArg Nat.cast hzero)
    · intro u v hadj heq
      have hu := hnone u
      rw [conflictsWith_ofColors, List.countP_eq_zero] at hu
      exact hu v hadj (decide_eq_true heq.symm)

end Coloring

/-! ## Main statement -/

open Coloring

/-- **A descent polishes a colouring.** From any colouring that can be reached, and without a
budget, a descent makes accepted moves that take away a conflict each, and a budget that is large
enough changes nothing of it. It ends with a colouring that no recolouring improves. -/
theorem coloring_descent_polishes {n : Nat} {G : Graph n} (hG : G.Constructed) {C : Coloring G}
    (hC : Tracker.Reachable Fresh C) :
    ∃ (moves undos : List Recolor) (last : Coloring G),
      Tracker.mutateAll C moves = .ok (undos, last) ∧
      C.descend none = (moves.length, last) ∧
      (∀ budget, moves.length ≤ budget → C.descend (some budget) = (moves.length, last)) ∧
      moves.length ≤ C.conflicts - last.conflicts ∧ last.k = C.k ∧ last.Polished := by
  obtain ⟨k, colors, rfl⟩ : ∃ (k : Nat) (colors : Vector (Fin k) n), C = ofColors G colors :=
    ⟨C.k, C.colors, (eq_ofColors_of_reachable hG.simple hC).2⟩
  obtain ⟨moves, undos, last, hmoves, hrun, hend, hle⟩ := exists_recolorings hG.simple colors
  rw [← conflictsOf_eq hG.simple, ← conflictsOf_eq hG.simple] at hle
  have hdescend : ∀ budget, moves.length ≤ budget →
      recolorings 0 budget (ofColors G colors) = (moves.length, ofColors G last) := by
    intro budget hbudget
    rw [hrun 0 budget hbudget, Nat.zero_add]
  refine ⟨moves, undos, ofColors G last, hmoves, ?_, hdescend, ?_, rfl,
    polished_ofColors hG.simple hend⟩
  · exact hdescend (conflictsOf G colors) ((Nat.le_add_right _ _).trans hle)
  · show (moves.length : Int) ≤ (conflictsOf G colors : Nat) - (conflictsOf G last : Nat)
    omega

/-- The path of four vertices in one of three colours becomes proper with two moves. -/
theorem coloring_descent_polishes_path : ∃ C : Coloring (Graph.path 4),
    Coloring.uniform (Graph.path 4) 3 = .ok C ∧ (C.descend none).1 = 2 ∧
    (C.descend none).2.Polished ∧ (C.descend none).2.isProper = true := by
  refine ⟨_, rfl, by decide +kernel, ?_⟩
  obtain ⟨moves, -, last, -, hdescend, -, -, hk, hpolished⟩ :=
    coloring_descent_polishes (.path 4) (.of_start (.uniform (k := 3) rfl))
  rw [hdescend]
  refine ⟨hpolished, (hpolished.proper ?_).1⟩
  rw [hk]
  decide +kernel

end Winners

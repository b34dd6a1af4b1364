import Winners.Proofs.Tracker.Coloring
import Winners.Proofs.Tracker.Members
import Winners.Proofs.Tracker.Message

set_option autoImplicit false

/-! # Taking moves back

Every mutation returns the move that takes it back. `mutateAll` collects these moves, and making
them in reverse order leads back to where the moves began.

This is shown once for all trackers, up to a relation `same` between trackers. `Reversible` asks for
two things: a single move can be taken back, and the relation is respected by mutations. For
colourings and messages `same` is equality. For vertex subsets it is to have the same members,
because a vertex that leaves the set and enters it again stands at another place of its array.
-/

namespace Winners

namespace Tracker

variable {τ μ ν : Type} [Tracker τ μ ν]

/-! ## Moves in sequence -/

/-- The tracker after all moves of a list, and the moves that take them back, the one for the last
move in front. -/
def mutateAll : τ → List μ → Except Error (List μ × τ)
  | t, [] => .ok ([], t)
  | t, move :: moves => do
      let (undo, t) ← mutate t move
      let (undos, t) ← mutateAll t moves
      return (undos ++ [undo], t)

theorem mutateAll_cons_eq_ok {t t' : τ} {move : μ} {moves undos : List μ} :
    mutateAll t (move :: moves) = .ok (undos, t') ↔
      ∃ undo next later, mutate t move = .ok (undo, next) ∧
        mutateAll next moves = .ok (later, t') ∧ undos = later ++ [undo] := by
  constructor
  · intro h
    obtain ⟨⟨undo, next⟩, hmove, h⟩ := bind_eq_ok.mp h
    obtain ⟨⟨later, last⟩, hmoves, h⟩ := bind_eq_ok.mp h
    cases h
    exact ⟨undo, next, later, hmove, hmoves, rfl⟩
  · rintro ⟨undo, next, later, hmove, hmoves, rfl⟩
    refine bind_eq_ok.mpr ⟨(undo, next), hmove, ?_⟩
    exact bind_eq_ok.mpr ⟨(later, t'), hmoves, rfl⟩

theorem mutateAll_concat {t next t' : τ} {moves undos : List μ} {move undo : μ}
    (hmoves : mutateAll t moves = .ok (undos, next)) (hmove : mutate next move = .ok (undo, t')) :
    mutateAll t (moves ++ [move]) = .ok (undo :: undos, t') := by
  induction moves generalizing t undos with
  | nil =>
      cases hmoves
      exact mutateAll_cons_eq_ok.mpr ⟨undo, t', [], hmove, rfl, rfl⟩
  | cons first moves ih =>
      obtain ⟨back, next', later, hfirst, hrest, rfl⟩ := mutateAll_cons_eq_ok.mp hmoves
      exact mutateAll_cons_eq_ok.mpr ⟨back, next', undo :: later, hfirst, ih hrest, rfl⟩

theorem Kept.mutateAll {P : τ → Prop} (hP : Kept P) {t t' : τ} {moves undos : List μ} (ht : P t)
    (h : mutateAll t moves = .ok (undos, t')) : P t' := by
  induction moves generalizing t undos with
  | nil =>
      cases h
      exact ht
  | cons move moves ih =>
      obtain ⟨undo, next, later, hmove, hmoves, -⟩ := mutateAll_cons_eq_ok.mp h
      exact ih (hP ht hmove) hmoves

/-! ## Reversible trackers -/

/-- **What makes moves reversible.** The trackers with the property `P` are the reachable ones. -/
structure Reversible (P : τ → Prop) (same : τ → τ → Prop) : Prop where
  kept : Kept P
  refl : ∀ t, same t t
  trans : ∀ {s t u}, same s t → same t u → same s u
  /-- Moves cannot tell trackers apart that are the same. -/
  respects : ∀ {s s' t : τ} {move undo : μ}, P s → P t → same s t →
    mutate s move = .ok (undo, s') → ∃ t', mutate t move = .ok (undo, t') ∧ same s' t'
  /-- The returned move takes back the one that was made, and is taken back by it. -/
  back : ∀ {t t' : τ} {move undo : μ}, P t → mutate t move = .ok (undo, t') →
    ∃ t₀, mutate t' undo = .ok (move, t₀) ∧ same t t₀

/-- Moves that can be taken back exactly. -/
theorem reversible_eq {P : τ → Prop} (hP : Kept P)
    (hback : ∀ {t t' : τ} {move undo : μ}, P t → mutate t move = .ok (undo, t') →
      mutate t' undo = .ok (move, t)) : Reversible P Eq where
  kept := hP
  refl := fun _ => rfl
  trans := Eq.trans
  respects := by
    rintro s s' t move undo _ _ rfl hmove
    exact ⟨s', hmove, rfl⟩
  back := fun ht hmove => ⟨_, hback ht hmove, rfl⟩

/-- **Moves are taken back in reverse order**, and what takes those back are the moves again. -/
theorem Reversible.mutateAll_undos {P : τ → Prop} {same : τ → τ → Prop} (h : Reversible P same)
    {t t' : τ} {moves undos : List μ} (ht : P t) (hmoves : mutateAll t moves = .ok (undos, t')) :
    ∃ t₀, mutateAll t' undos = .ok (moves, t₀) ∧ same t t₀ := by
  induction moves generalizing t undos with
  | nil =>
      cases hmoves
      exact ⟨t', rfl, h.refl t'⟩
  | cons move moves ih =>
      obtain ⟨undo, next, later, hmove, hrest, rfl⟩ := mutateAll_cons_eq_ok.mp hmoves
      have hnext : P next := h.kept ht hmove
      obtain ⟨next₀, hback, hsame⟩ := ih hnext hrest
      -- all moves but the first are taken back now, up to `same`
      have hnext₀ : P next₀ := h.kept.mutateAll (h.kept.mutateAll hnext hrest) hback
      obtain ⟨t₁, hundo, hsame₁⟩ := h.back ht hmove
      obtain ⟨t₀, hundo₀, hsame₀⟩ := h.respects hnext hnext₀ hsame hundo
      exact ⟨t₀, mutateAll_concat hback hundo₀, h.trans hsame₁ hsame₀⟩

/-- **A tracker whose moves can be taken back**, up to a relation `same`. -/
structure TakesBack (same : τ → τ → Prop) (t : τ) : Prop where
  /-- The returned moves, made in reverse order, lead back. -/
  all : ∀ {moves undos : List μ} {t' : τ}, mutateAll t moves = .ok (undos, t') →
    ∃ t₀, mutateAll t' undos = .ok (moves, t₀) ∧ same t t₀
  /-- Taking a move back returns that move, and it can be made again. -/
  again : ∀ {move undo : μ} {t' : τ}, mutate t move = .ok (undo, t') →
    ∃ t₀ t₁, mutate t' undo = .ok (move, t₀) ∧ same t t₀ ∧
      mutate t₀ move = .ok (undo, t₁) ∧ same t' t₁

theorem Reversible.takesBack {P : τ → Prop} {same : τ → τ → Prop} (h : Reversible P same)
    {alike : τ → τ → Prop} (halike : ∀ {s t}, P s → P t → same s t → alike s t) {t : τ}
    (ht : P t) : TakesBack alike t where
  all := by
    intro moves undos t' hmoves
    obtain ⟨t₀, hundos, hsame⟩ := h.mutateAll_undos ht hmoves
    have ht₀ : P t₀ := h.kept.mutateAll (h.kept.mutateAll ht hmoves) hundos
    exact ⟨t₀, hundos, halike ht ht₀ hsame⟩
  again := by
    intro move undo t' hmove
    obtain ⟨t₀, hundo, hsame⟩ := h.back ht hmove
    have ht' : P t' := h.kept ht hmove
    have ht₀ : P t₀ := h.kept ht' hundo
    obtain ⟨t₁, hmove₀, hsame'⟩ := h.respects ht ht₀ hsame hmove
    exact ⟨t₀, t₁, hundo, halike ht ht₀ hsame, hmove₀, halike ht' (h.kept ht₀ hmove₀) hsame'⟩

end Tracker

/-! ## Colourings -/

namespace Coloring

variable {n k : Nat} {G : Graph n}

theorem mutate_ofColors (hG : G.Simple) (colors : Vector (Fin k) n) (v : Fin n) (color : Fin k) :
    Tracker.mutate (ofColors G colors) ⟨v, color⟩ =
      .ok (⟨v, colors.get v⟩, ofColors G (colors.set v color v.isLt)) := by
  refine (mutate_of_lt (ofColors G colors) v.isLt color.isLt).trans ?_
  rw [show (ofColors G colors).recolor ⟨v, v.isLt⟩ ⟨color, color.isLt⟩ = _ from
    recolor_ofColors hG colors v color]
  rfl

/-- Only moves of the colours and vertices that there are succeed. -/
theorem exists_of_mutate_eq_ok {C C' : Coloring G} {move undo : Recolor}
    (h : Tracker.mutate C move = .ok (undo, C')) :
    ∃ (v : Fin n) (color : Fin C.k), move = ⟨v, color⟩ := by
  by_cases hrefused : n ≤ move.node ∨ C.k ≤ move.color
  · obtain ⟨e, he⟩ := mutate_of_le C hrefused
    rw [he] at h
    cases h
  · obtain ⟨hnode, hcolor⟩ := not_or.mp hrefused
    exact ⟨⟨move.node, Nat.not_le.mp hnode⟩, ⟨move.color, Nat.not_le.mp hcolor⟩, rfl⟩

/-- **The returned move takes back a recolouring**, and also a move that changes no colour. -/
theorem mutate_undo (hG : G.Simple) {C C' : Coloring G} {move undo : Recolor}
    (hC : Tracker.Reachable Coloring.Fresh C) (h : Tracker.mutate C move = .ok (undo, C')) :
    Tracker.mutate C' undo = .ok (move, C) := by
  obtain ⟨k, colors, rfl⟩ := exists_ofColors_of_reachable hG hC
  obtain ⟨v, color, rfl⟩ : ∃ (v : Fin n) (color : Fin k), move = ⟨v, color⟩ :=
    exists_of_mutate_eq_ok h
  cases (mutate_ofColors hG colors v color).symm.trans h
  have hrestored : (colors.set v color v.isLt).set v (colors.get v) v.isLt = colors := by
    rw [Vector.set_set, Patch.set_get]
  rw [mutate_ofColors hG, hrestored, Patch.get_set_self]

theorem reversible (hG : G.Simple) :
    Tracker.Reversible (Tracker.Reachable (Coloring.Fresh (G := G))) Eq :=
  Tracker.reversible_eq (Tracker.kept_reachable _) fun hC h => mutate_undo hG hC h

end Coloring

/-! ## Messages -/

namespace Message

variable {n m : Nat} {C : Code n m}

/-- **A flip takes back a flip.** -/
theorem mutate_undo (hC : C.Dual) {x x' : Message C} {move undo : Nat}
    (hx : Tracker.Reachable Message.Fresh x) (h : Tracker.mutate x move = .ok (undo, x')) :
    Tracker.mutate x' undo = .ok (move, x) := by
  obtain ⟨bits, rfl⟩ : ∃ bits, x = ofBits C bits := ⟨x.bits, eq_ofBits_of_reachable hC hx⟩
  obtain ⟨b, rfl, rfl, rfl⟩ := Tracker.exists_of_applyAt (Tracker.mutate_eq_ok_iff.mp h)
  rw [flip_ofBits hC, mutate_of_lt _ b.isLt, flip_ofBits hC, ← Patch.flipAt_val,
    ← Patch.flipAt_val, Patch.flipAt_flipAt]

theorem reversible (hC : C.Dual) :
    Tracker.Reversible (Tracker.Reachable (Message.Fresh (C := C))) Eq :=
  Tracker.reversible_eq (Tracker.kept_reachable _) fun hx h => mutate_undo hC hx h

end Message

/-! ## Vertex subsets -/

namespace VertexSubset

variable {n : Nat} {G : Graph n} {S T : VertexSubset G}

theorem kept_exact (hG : G.Simple) : Tracker.Kept (Exact (G := G)) := by
  intro S S' move undo hS h
  obtain ⟨v, -, -, rfl⟩ := Tracker.exists_of_applyAt (Tracker.mutate_eq_ok_iff.mp h)
  exact hS.toggle hG v

theorem reversible (hG : G.Simple) :
    Tracker.Reversible (Exact (G := G)) fun S T => S.member = T.member where
  kept := kept_exact hG
  refl := fun _ => rfl
  trans := Eq.trans
  respects := by
    intro S S' T move undo _ _ hmember h
    obtain ⟨v, rfl, rfl, rfl⟩ := Tracker.exists_of_applyAt (Tracker.mutate_eq_ok_iff.mp h)
    refine ⟨T.toggle v, mutate_of_lt T v.isLt, ?_⟩
    rw [toggle_member, toggle_member, hmember]
  back := by
    intro S S' move undo _ h
    obtain ⟨v, rfl, rfl, rfl⟩ := Tracker.exists_of_applyAt (Tracker.mutate_eq_ok_iff.mp h)
    refine ⟨(S.toggle v).toggle v, mutate_of_lt _ v.isLt, ?_⟩
    rw [toggle_member, toggle_member, Patch.flipAt_flipAt]

/-- **What is observed of a subset**: everything but the order in which its arrays list the
vertices. -/
structure Alike (S T : VertexSubset G) : Prop where
  member : S.member = T.member
  members : S.members = T.members
  internalDegree : S.internalDegree = T.internalDegree
  score : Tracker.score S = Tracker.score T
  fitness : Tracker.fitness S = Tracker.fitness T
  marginal : ∀ v, Tracker.marginal S v = Tracker.marginal T v

/-- Exact subsets of the same members are alike. -/
theorem Exact.alike (hS : S.Exact) (hT : T.Exact) (h : S.member = T.member) : Alike S T := by
  have hdegrees : S.internalDegree = T.internalDegree := by
    apply Patch.ext_get
    intro v
    rw [hS.degrees, hT.degrees, h]
  have hedges : S.edgesInside = T.edgesInside := by
    rw [hS.edges, hT.edges, h]
  have hsize : S.size = T.size := by
    rw [Arranged.size_eq hS.sides, Arranged.size_eq hT.sides, h]
  exact {
    member := h
    members := by rw [Arranged.members_eq hS.sides, Arranged.members_eq hT.sides, h]
    internalDegree := hdegrees
    score := hedges
    fitness := by
      show S.density = T.density
      rw [density, density, hsize, hedges]
    marginal := by
      intro v
      have hmarginal : S.marginal = T.marginal := by
        funext u
        rw [marginal, marginal, h, hdegrees]
      show (do return S.marginal (← checkIndex v n)) = (do return T.marginal (← checkIndex v n))
      rw [hmarginal] }

end VertexSubset

open VertexSubset

/-- **Moves are taken back in reverse order**, from every subset that calls and rebuildings lead to
and from every reachable colouring and message, however many moves have been made. A subset gets
back all that is observed of it; a colouring and a message are restored in every field. -/
theorem undone_moves_restore_tracker :
    (∀ {n : Nat} {G : Graph n} {S : VertexSubset G}, G.Constructed → S.Evolved →
      Tracker.TakesBack Alike S) ∧
    (∀ {n : Nat} {G : Graph n} {C : Coloring G}, G.Constructed →
      Tracker.Reachable Coloring.Fresh C → Tracker.TakesBack Eq C) ∧
    (∀ {n m : Nat} {C : Code n m} {x : Message C}, C.Constructed →
      Tracker.Reachable Message.Fresh x → Tracker.TakesBack Eq x) := by
  refine ⟨?_, ?_, ?_⟩
  · intro n G S hG hS
    exact (VertexSubset.reversible hG.simple).takesBack Exact.alike (hS.exact hG.simple)
  · intro n G C hG hC
    exact (Coloring.reversible hG.simple).takesBack (fun _ _ h => h) hC
  · intro n m C x hC hx
    exact (Message.reversible hC.dual).takesBack (fun _ _ h => h) hx

/-- A member leaves and another vertex enters; taken back, the members stand in another order. The
vertices of a triangle are recoloured, one of them to the colour it has, and bits that share
checks are flipped. -/
theorem undone_moves_restore_tracker_small :
    (∃ S' S₀, Tracker.mutateAll pathStart [0, 2] = .ok ([2, 0], S') ∧
      Tracker.mutateAll S' [2, 0] = .ok ([0, 2], S₀) ∧ Alike pathStart S₀ ∧
      S₀.sides.inside ≠ pathStart.sides.inside) ∧
    (∃ C', Tracker.mutateAll plainTriangle [⟨0, 1⟩, ⟨0, 1⟩, ⟨2, 1⟩] =
        .ok ([⟨2, 0⟩, ⟨0, 1⟩, ⟨0, 0⟩], C') ∧
      Tracker.mutateAll C' [⟨2, 0⟩, ⟨0, 1⟩, ⟨0, 0⟩] =
        .ok ([⟨0, 1⟩, ⟨0, 1⟩, ⟨2, 1⟩], plainTriangle)) ∧
    (∃ x', Tracker.mutateAll (Message.zeros overlappingChecks) [0, 2, 1] = .ok ([1, 2, 0], x') ∧
      Tracker.mutateAll x' [1, 2, 0] = .ok ([0, 2, 1], Message.zeros overlappingChecks)) := by
  obtain ⟨hsubset, hcoloring, hmessage⟩ := undone_moves_restore_tracker
  refine ⟨?_, ?_, ?_⟩
  · have hlist : ofList (Graph.path 4) [0, 1] = .ok pathStart := by decide +kernel
    have hmoves : Tracker.mutateAll pathStart [0, 2] =
        .ok ([2, 0], (pathStart.toggle 0).toggle 2) := by decide +kernel
    obtain ⟨S₀, hundos, halike⟩ := (hsubset (.path 4) (.fresh (.ofList hlist))).all hmoves
    have hmembers : S₀.sides.inside = #[1, 0] := by
      cases hundos
      decide +kernel
    refine ⟨_, S₀, hmoves, hundos, halike, ?_⟩
    rw [hmembers]
    decide +kernel
  · have hfresh : plainTriangle.Fresh := .uniform (k := 2) rfl
    have hmoves : Tracker.mutateAll plainTriangle [⟨0, 1⟩, ⟨0, 1⟩, ⟨2, 1⟩] =
        .ok ([⟨2, 0⟩, ⟨0, 1⟩, ⟨0, 0⟩],
          Coloring.ofColors (Graph.complete 3) (k := 2) #v[1, 0, 1]) := by
      decide +kernel
    obtain ⟨C₀, hundos, rfl⟩ := (hcoloring (.complete 3) (.of_start hfresh)).all hmoves
    exact ⟨_, hmoves, hundos⟩
  · have hmoves : Tracker.mutateAll (Message.zeros overlappingChecks) [0, 2, 1] =
        .ok ([1, 2, 0], Message.ofBits overlappingChecks #v[true, true, true]) := by
      decide +kernel
    obtain ⟨x₀, hundos, rfl⟩ :=
      (hmessage constructed_overlappingChecks (.of_start .zeros)).all hmoves
    exact ⟨_, hmoves, hundos⟩

end Winners

import Winners.Tracker.VertexSubset
import Winners.Proofs.Patch
import Mathlib.Data.Fintype.Card
import Mathlib.Data.List.FinRange
import Mathlib.Tactic.Tauto

set_option autoImplicit false

/-! # The two arrays of a vertex subset

`Indexed xs slot P` says that the array `xs` holds each vertex with the property `P` once, at its
slot, and no other vertex. Pushing a vertex and removing one by `swapRemove` keep this
for the array that changes, and for the other array as well, since they touch only slots of
vertices that are not in it. `Sides.Holds` is the invariant of both arrays together.
-/

namespace Winners

namespace Sides

variable {n : Nat}

/-- The array holds exactly the vertices with the property, each at its slot. -/
def Indexed (xs : Array (Fin n)) (slot : Vector Nat n) (P : Fin n → Prop) : Prop :=
  ∀ i v, xs[i]? = some v ↔ P v ∧ slot.get v = i

variable {xs : Array (Fin n)} {slot : Vector Nat n} {P : Fin n → Prop} {v : Fin n}

theorem indexed_empty (slot : Vector Nat n) : Indexed #[] slot fun _ => False := by
  intro i v
  simp

theorem Indexed.congr {Q : Fin n → Prop} (h : Indexed xs slot P) (hPQ : ∀ u, P u ↔ Q u) :
    Indexed xs slot Q := by
  intro i u
  rw [h i u, hPQ u]

namespace Indexed

theorem getElem?_slot (h : Indexed xs slot P) (hv : P v) : xs[slot.get v]? = some v :=
  (h (slot.get v) v).mpr ⟨hv, rfl⟩

theorem slot_lt (h : Indexed xs slot P) (hv : P v) : slot.get v < xs.size := by
  obtain ⟨hlt, -⟩ := Array.getElem?_eq_some_iff.mp (h.getElem?_slot hv)
  exact hlt

theorem mem_iff (h : Indexed xs slot P) : v ∈ xs ↔ P v := by
  rw [Array.mem_iff_getElem?]
  constructor
  · rintro ⟨i, hi⟩
    exact ((h i v).mp hi).1
  · intro hv
    exact ⟨_, h.getElem?_slot hv⟩

/-- No vertex stands in the array twice. -/
theorem nodup (h : Indexed xs slot P) : xs.toList.Nodup := by
  rw [List.nodup_iff_getElem?_ne_getElem?]
  intro i j hij hj heq
  rw [Array.getElem?_toList, Array.getElem?_toList] at heq
  have hget : xs[j]? = some xs[j] := Array.getElem?_eq_getElem (by simpa using hj)
  have hi := ((h i xs[j]).mp (heq.trans hget)).2
  have hj := ((h j xs[j]).mp hget).2
  omega

/-- There are no more entries than vertices. -/
theorem size_le (h : Indexed xs slot P) : xs.size ≤ n := by
  have hlength := h.nodup.length_le_card
  rwa [Fintype.card_fin, Array.length_toList] at hlength

/-- Slots of vertices that are not in the array do not matter. -/
theorem set_slot (h : Indexed xs slot P) (hv : ¬P v) (i : Nat) :
    Indexed xs (slot.set v i v.isLt) P := by
  intro j u
  rw [h j u]
  by_cases hu : u = v
  · subst hu
    simp [hv]
  · rw [Patch.get_set_ne slot hu]

theorem push (h : Indexed xs slot P) (hv : ¬P v) :
    Indexed (xs.push v) (slot.set v xs.size v.isLt) fun u => P u ∨ u = v := by
  intro i u
  have hold := h i u
  rw [Array.getElem?_push]
  by_cases hu : u = v
  · subst hu
    rw [Patch.get_set_self]
    by_cases hi : i = xs.size
    · simp [hi]
    · rw [if_neg hi, hold]
      simp [hv, Ne.symm hi]
  · rw [Patch.get_set_ne slot hu]
    by_cases hi : i = xs.size
    · -- the new place is past the slots of all vertices that were there before
      have hlt : P u → slot.get u ≠ i := fun hP => by
        have := h.slot_lt hP
        omega
      rw [if_pos hi, Option.some.injEq]
      constructor
      · intro hvu
        exact absurd hvu.symm hu
      · rintro ⟨hP | rfl, hslot⟩
        · exact absurd hslot (hlt hP)
        · exact absurd rfl hu
    · rw [if_neg hi, hold]
      simp [hu]

end Indexed

/-! ## Removing a vertex -/

/-- The entries after a removal: the last one has moved to the hole. -/
theorem getElem?_swapRemove {α : Type} (xs : Array α) (position i : Nat) :
    (swapRemove xs position)[i]? =
      if i + 1 < xs.size then (if i = position then xs[xs.size - 1]? else xs[i]?) else none := by
  unfold swapRemove
  rw [Array.back?_eq_getElem?]
  cases hlast : xs[xs.size - 1]? with
  | none =>
      have hsize := Array.getElem?_eq_none_iff.mp hlast
      have hnone : xs[i]? = none := Array.getElem?_eq_none (by omega)
      rw [if_neg (by omega)]
      exact hnone
  | some last =>
      simp only [Array.getElem?_pop, Array.size_setIfInBounds, Array.getElem?_setIfInBounds]
      by_cases hi : i + 1 < xs.size
      · rw [if_pos (by omega), if_pos hi]
        by_cases hp : i = position
        · subst hp
          rw [if_pos rfl, if_pos rfl, if_pos (by omega)]
        · rw [if_neg (Ne.symm hp), if_neg hp]
      · rw [if_neg (by omega), if_neg hi]

theorem fillHole_swapRemove_last {position : Nat} (h : ¬position + 1 < xs.size) :
    fillHole slot (swapRemove xs position) position = slot := by
  unfold fillHole
  rw [getElem?_swapRemove, if_neg h]

theorem fillHole_swapRemove {position : Nat} {last : Fin n} (h : position + 1 < xs.size)
    (hlast : xs[xs.size - 1]? = some last) :
    fillHole slot (swapRemove xs position) position =
      slot.set last position last.isLt := by
  unfold fillHole
  rw [getElem?_swapRemove, if_pos h, if_pos rfl, hlast]

namespace Indexed

theorem slot_eq (h : Indexed xs slot P) {i : Nat} {u : Fin n} (hi : xs[i]? = some u) :
    slot.get u = i :=
  ((h i u).mp hi).2

/-- Removing the vertex that stands last moves nothing. -/
theorem swapRemove_last (h : Indexed xs slot P) (hv : P v)
    (hpos : ¬slot.get v + 1 < xs.size) :
    Indexed (swapRemove xs (slot.get v)) slot fun u => P u ∧ u ≠ v := by
  have hvlt := h.slot_lt hv
  intro i u
  rw [getElem?_swapRemove]
  by_cases hi : i + 1 < xs.size
  · rw [if_pos hi, if_neg (by omega), h i u]
    constructor
    · rintro ⟨hPu, hslot⟩
      refine ⟨⟨hPu, ?_⟩, hslot⟩
      rintro rfl
      omega
    · rintro ⟨⟨hPu, -⟩, hslot⟩
      exact ⟨hPu, hslot⟩
  · rw [if_neg hi]
    constructor
    · intro hnone
      cases hnone
    · rintro ⟨⟨hPu, huv⟩, hslot⟩
      have hult := h.slot_lt hPu
      have hget := h.getElem?_slot hPu
      rw [show slot.get u = slot.get v by omega, h.getElem?_slot hv, Option.some.injEq] at hget
      exact absurd hget.symm huv

/-- When another vertex than the last is removed, the last one stands in its place. -/
theorem swapRemove_moved (h : Indexed xs slot P) (hpos : slot.get v + 1 < xs.size)
    {last : Fin n} (hlast : xs[xs.size - 1]? = some last) (i : Nat) :
    (swapRemove xs (slot.get v))[i]? = some last ↔ slot.get v = i := by
  have hslotlast := h.slot_eq hlast
  rw [getElem?_swapRemove, hlast]
  constructor
  · intro hif
    by_contra hi
    rw [if_neg (Ne.symm hi)] at hif
    split at hif
    · have := h.slot_eq hif
      omega
    · cases hif
  · rintro rfl
    rw [if_pos hpos, if_pos rfl]

/-- All others but the removed one stand where they stood. -/
theorem swapRemove_others (h : Indexed xs slot P) (hv : P v) (hpos : slot.get v + 1 < xs.size)
    {last u : Fin n} (hlast : xs[xs.size - 1]? = some last) (hul : u ≠ last) (i : Nat) :
    (swapRemove xs (slot.get v))[i]? = some u ↔ (P u ∧ u ≠ v) ∧ slot.get u = i := by
  rw [getElem?_swapRemove, hlast]
  constructor
  · intro hif
    split at hif
    · split at hif
      · exact absurd (Option.some.inj hif).symm hul
      · next hi =>
          obtain ⟨hPu, hslot⟩ := (h i u).mp hif
          refine ⟨⟨hPu, ?_⟩, hslot⟩
          rintro rfl
          exact hi hslot.symm
    · cases hif
  · rintro ⟨⟨hPu, huv⟩, rfl⟩
    have hget := h.getElem?_slot hPu
    have hult := h.slot_lt hPu
    have hlt : slot.get u + 1 < xs.size := by
      by_contra hnot
      rw [show slot.get u = xs.size - 1 by omega, hlast] at hget
      exact hul (Option.some.inj hget).symm
    -- two vertices never share a slot
    have hne : slot.get u ≠ slot.get v := by
      intro heq
      rw [heq, h.getElem?_slot hv] at hget
      exact huv (Option.some.inj hget).symm
    rw [if_pos hlt, if_neg hne, hget]

/-- Removing any other vertex than the last moves the last one to its place. -/
theorem swapRemove_inner (h : Indexed xs slot P) (hv : P v) (hpos : slot.get v + 1 < xs.size)
    {last : Fin n} (hlast : xs[xs.size - 1]? = some last) :
    Indexed (swapRemove xs (slot.get v)) (slot.set last (slot.get v) last.isLt)
      fun u => P u ∧ u ≠ v := by
  intro i u
  by_cases hul : u = last
  · subst hul
    rw [h.swapRemove_moved hpos hlast, Patch.get_set_self]
    have hPu := ((h _ u).mp hlast).1
    have huv : u ≠ v := by
      rintro rfl
      have := h.slot_eq hlast
      omega
    exact (and_iff_right ⟨hPu, huv⟩).symm
  · rw [h.swapRemove_others hv hpos hlast hul, Patch.get_set_ne slot hul]

/-- **Removal.** The array no longer holds the vertex, and the slots fit again. -/
theorem swapRemove (h : Indexed xs slot P) (hv : P v) :
    Indexed (swapRemove xs (slot.get v))
      (fillHole slot (Winners.swapRemove xs (slot.get v)) (slot.get v))
      fun u => P u ∧ u ≠ v := by
  by_cases hpos : slot.get v + 1 < xs.size
  · have hlast : xs[xs.size - 1]? = some xs[xs.size - 1] := Array.getElem?_eq_getElem (by omega)
    rw [fillHole_swapRemove hpos hlast]
    exact h.swapRemove_inner hv hpos hlast
  · rw [fillHole_swapRemove_last hpos]
    exact h.swapRemove_last hv hpos

/-- A removal from one array does not disturb the other. -/
theorem fillHole {Q : Fin n → Prop} {ys : Array (Fin n)} (h : Indexed ys slot Q)
    {rest : Array (Fin n)} (hrest : ∀ u ∈ rest, ¬Q u) (position : Nat) :
    Indexed ys (fillHole slot rest position) Q := by
  unfold Sides.fillHole
  split
  · next moved hmoved => exact h.set_slot (hrest moved (Array.mem_of_getElem? hmoved)) position
  · exact h

end Indexed

/-! ## Both arrays -/

/-- **The invariant of the arrays.** One holds the members, the other all other vertices. -/
structure Holds (s : Sides n) (member : Fin n → Prop) : Prop where
  inside : Indexed s.inside s.slot member
  outside : Indexed s.outside s.slot fun u => ¬member u

variable {s : Sides n} {member : Fin n → Prop}

theorem Holds.congr {member' : Fin n → Prop} (h : s.Holds member)
    (hiff : ∀ u, member u ↔ member' u) : s.Holds member' :=
  ⟨h.inside.congr hiff, h.outside.congr fun u => not_congr (hiff u)⟩

/-- A member that crosses is a member no more. -/
theorem Holds.leave (h : s.Holds member) (hv : member v) :
    (s.cross v true).Holds fun u => member u ∧ u ≠ v := by
  have hinside := h.inside.swapRemove hv
  -- the vertex that fills the hole is a member, so the other array does not hold it
  have hrest : ∀ u ∈ Winners.swapRemove s.inside (s.slot.get v), ¬¬member u := fun u hu =>
    not_not.mpr (hinside.mem_iff.mp hu).1
  have houtside := h.outside.fillHole hrest (s.slot.get v)
  refine ⟨?_, ?_⟩
  · exact hinside.set_slot (fun hmem => hmem.2 rfl) s.outside.size
  · refine (houtside.push (not_not.mpr hv)).congr ?_
    intro u
    tauto

/-- Any other vertex that crosses becomes a member. -/
theorem Holds.enter (h : s.Holds member) (hv : ¬member v) :
    (s.cross v false).Holds fun u => member u ∨ u = v := by
  have houtside := h.outside.swapRemove hv
  have hrest : ∀ u ∈ Winners.swapRemove s.outside (s.slot.get v), ¬member u := fun u hu =>
    (houtside.mem_iff.mp hu).1
  have hinside := h.inside.fillHole hrest (s.slot.get v)
  refine ⟨?_, ?_⟩
  · exact hinside.push hv
  · refine (houtside.set_slot (fun hmem => hmem.2 rfl) s.inside.size).congr ?_
    intro u
    tauto

/-- Appending a new vertex to its array. -/
theorem indexed_append (member : Vector Bool n) {done : Fin n → Prop} (hv : ¬done v)
    (hinside : Indexed s.inside s.slot fun u => done u ∧ member.get u = true)
    (houtside : Indexed s.outside s.slot fun u => done u ∧ member.get u = false) :
    let t := s.append v (member.get v)
    Indexed t.inside t.slot (fun u => (done u ∨ u = v) ∧ member.get u = true) ∧
    Indexed t.outside t.slot fun u => (done u ∨ u = v) ∧ member.get u = false := by
  cases hmem : member.get v with
  | true =>
      refine ⟨(hinside.push fun h => hv h.1).congr ?_,
        (houtside.set_slot (fun h => hv h.1) s.inside.size).congr ?_⟩
      · intro u
        by_cases huv : u = v <;> simp [huv, hmem]
      · intro u
        by_cases huv : u = v <;> simp [huv, hmem]
  | false =>
      refine ⟨(hinside.set_slot (fun h => hv h.1) s.outside.size).congr ?_,
        (houtside.push fun h => hv h.1).congr ?_⟩
      · intro u
        by_cases huv : u = v <;> simp [huv, hmem]
      · intro u
        by_cases huv : u = v <;> simp [huv, hmem]

/-- Appending the vertices of a list, which are new, to the array of each. -/
theorem indexed_foldl_append (member : Vector Bool n) :
    ∀ {vs : List (Fin n)} {s : Sides n} {done : Fin n → Prop}, vs.Nodup → (∀ v ∈ vs, ¬done v) →
      Indexed s.inside s.slot (fun u => done u ∧ member.get u = true) →
      Indexed s.outside s.slot (fun u => done u ∧ member.get u = false) →
      let t := vs.foldl (fun s v => s.append v (member.get v)) s
      Indexed t.inside t.slot (fun u => (done u ∨ u ∈ vs) ∧ member.get u = true) ∧
      Indexed t.outside t.slot fun u => (done u ∨ u ∈ vs) ∧ member.get u = false := by
  intro vs
  -- both arrays grow along the list, so the induction carries both facts
  induction vs with
  | nil =>
      intro s done _ _ hinside houtside
      exact ⟨hinside.congr (by simp), houtside.congr (by simp)⟩
  | cons v vs ih =>
      intro s done distinct hnew hinside houtside
      obtain ⟨hv, hvs⟩ := List.nodup_cons.mp distinct
      have hrest : ∀ u ∈ vs, ¬(done u ∨ u = v) := by
        rintro u hu (hdone | rfl)
        · exact hnew u (List.mem_cons_of_mem v hu) hdone
        · exact hv hu
      have hdone : ∀ u, (done u ∨ u = v) ∨ u ∈ vs ↔ done u ∨ u ∈ v :: vs := by
        intro u
        rw [List.mem_cons, or_assoc]
      obtain ⟨hin, hout⟩ := indexed_append member (hnew v List.mem_cons_self) hinside houtside
      obtain ⟨hin', hout'⟩ := ih hvs hrest hin hout
      exact ⟨hin'.congr fun u => and_congr_left' (hdone u),
        hout'.congr fun u => and_congr_left' (hdone u)⟩

theorem holds_ofMembers (member : Vector Bool n) :
    (ofMembers member).Holds fun u => member.get u = true := by
  have hnone : ∀ b : Bool, Indexed #[] (Vector.replicate n 0) fun u =>
      False ∧ member.get u = b := fun b => (indexed_empty _).congr (by simp)
  obtain ⟨hinside, houtside⟩ := indexed_foldl_append member (s := empty n)
    (List.nodup_finRange n) (fun _ _ => not_false) (hnone true) (hnone false)
  exact ⟨hinside.congr (by simp), houtside.congr (by simp)⟩

end Sides

end Winners

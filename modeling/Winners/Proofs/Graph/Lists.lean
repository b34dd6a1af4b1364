import Winners.Proofs.Graph.Queries

set_option autoImplicit false

/-! # Neighbour lists, sorted and searched

The neighbours of a vertex are put in order by insertion (`ascending`), and two vertices are tested
for an edge by membership (`Graph.hasEdge`). A program that wants to be fast sorts a list once and
then drops the repeated entries, which stand next to each other, and it searches a list by halves.
This makes no difference: any sort leads to the same lists (`Graph.ofLists_eq`), and on lists in
ascending order the search finds what is there (`Graph.hasEdge_eq_searchHalves`).
-/

namespace Winners

variable {n : Nat}

/-! ## Sorting -/

/-- The first entry of each run of equal ones. -/
def dropRepeats : List (Fin n) → List (Fin n)
  | [] => []
  | [x] => [x]
  | x :: y :: xs => if x = y then dropRepeats (y :: xs) else x :: dropRepeats (y :: xs)

theorem mem_dropRepeats {v : Fin n} {xs : List (Fin n)} : v ∈ dropRepeats xs ↔ v ∈ xs := by
  fun_induction dropRepeats xs with
  | case1 => exact Iff.rfl
  | case2 x => exact Iff.rfl
  | case3 y xs ih => simp [ih]
  | case4 x y xs hne ih => rw [List.mem_cons, ih, List.mem_cons (l := y :: xs)]

/-- Sorted lists become strictly ascending. -/
theorem pairwise_dropRepeats {xs : List (Fin n)} (h : xs.Pairwise (· ≤ ·)) :
    (dropRepeats xs).Pairwise (· < ·) := by
  fun_induction dropRepeats xs with
  | case1 => exact List.Pairwise.nil
  | case2 x => exact List.pairwise_singleton _ x
  | case3 y xs ih => exact ih h.tail
  | case4 x y xs hne ih =>
      obtain ⟨hx, hxs⟩ := List.pairwise_cons.mp h
      refine List.pairwise_cons.mpr ⟨?_, ih hxs⟩
      intro v hv
      have hxy : x < y := lt_of_le_of_ne (hx y List.mem_cons_self) hne
      rcases List.mem_cons.mp (mem_dropRepeats.mp hv) with rfl | hv
      · exact hxy
      · exact lt_of_lt_of_le hxy ((List.pairwise_cons.mp hxs).1 v hv)

/-- **Any sort will do**: without repetitions there is only one sorted list of the same entries. -/
theorem dropRepeats_eq_ascending {xs sorted : List (Fin n)} (hperm : sorted.Perm xs)
    (hsorted : sorted.Pairwise (· ≤ ·)) : dropRepeats sorted = ascending xs := by
  apply eq_of_ascending (pairwise_dropRepeats hsorted) (pairwise_ascending xs)
  intro v
  rw [mem_dropRepeats, mem_ascending, hperm.mem_iff]

namespace Graph

/-- **Graphs are made by sorting their lists** and dropping what is repeated. -/
theorem ofLists_eq {sort : List (Fin n) → List (Fin n)}
    (hsort : ∀ xs, (sort xs).Perm xs ∧ (sort xs).Pairwise (· ≤ ·))
    (lists : Vector (List (Fin n)) n) :
    ofLists lists = ⟨lists.map fun row => dropRepeats (sort row)⟩ := by
  have hrow : ∀ row, ascending row = dropRepeats (sort row) := fun row =>
    (dropRepeats_eq_ascending (hsort row).1 (hsort row).2).symm
  rw [ofLists, funext hrow]

end Graph

/-! ## Searching -/

/-- Searches the `size` entries from place `low` on for the number `x`. As long as there are several,
one of the two halves is given up. -/
def searchHalves (xs : List (Fin n)) (x low size : Nat) : Bool :=
  if 1 < size then
    if xs[low + size / 2]?.any (x < ·.val) then searchHalves xs x low (size - size / 2)
    else searchHalves xs x (low + size / 2) (size - size / 2)
  else xs[low]?.any (·.val == x)
termination_by size

/-- A place with the number `x` among the `size` places from `low` on. -/
def FoundAt (xs : List (Fin n)) (x low size : Nat) : Prop :=
  ∃ (i : Nat) (h : i < xs.length), low ≤ i ∧ i < low + size ∧ xs[i].val = x

section

variable {xs : List (Fin n)} {x low size : Nat}

/-- An entry that is greater than `x` hides nothing at or behind its place. -/
theorem FoundAt.in_front (hxs : xs.Pairwise (· < ·)) {mid : Nat} (hmid : mid < xs.length)
    (hgreater : x < xs[mid].val) (h : FoundAt xs x low size) :
    FoundAt xs x low (mid - low) := by
  obtain ⟨i, hi, hlow, -, hx⟩ := h
  rcases Nat.lt_or_ge i mid with hlt | hge
  · exact ⟨i, hi, hlow, by omega, hx⟩
  · rcases Nat.eq_or_lt_of_le hge with rfl | hgt
    · omega
    · have hless := List.pairwise_iff_getElem.mp hxs mid i hmid hi hgt
      omega

/-- An entry that is not greater than `x` hides nothing in front of its place. -/
theorem FoundAt.from_place (hxs : xs.Pairwise (· < ·)) {mid : Nat} (hmid : mid < xs.length)
    (hle : xs[mid].val ≤ x) (h : FoundAt xs x low size) :
    FoundAt xs x mid (low + size - mid) := by
  obtain ⟨i, hi, -, hhigh, hx⟩ := h
  rcases Nat.lt_or_ge i mid with hlt | hge
  · have hless := List.pairwise_iff_getElem.mp hxs i mid hi hmid hlt
    omega
  · exact ⟨i, hi, hge, by omega, hx⟩

theorem FoundAt.mono {low' size' : Nat} (h : FoundAt xs x low size) (hlow : low' ≤ low)
    (hhigh : low + size ≤ low' + size') : FoundAt xs x low' size' := by
  obtain ⟨i, hi, hilow, hihigh, hx⟩ := h
  exact ⟨i, hi, by omega, by omega, hx⟩

/-- **The search by halves is right** on lists in ascending order. -/
theorem searchHalves_iff (hxs : xs.Pairwise (· < ·)) (hsize : 0 < size)
    (hroom : low + size ≤ xs.length) :
    searchHalves xs x low size = true ↔ FoundAt xs x low size := by
  fun_induction searchHalves xs x low size with
  | case1 low size hseveral hgreater ih =>
      have hmid : low + size / 2 < xs.length := by omega
      rw [List.getElem?_eq_getElem hmid, Option.any_some, decide_eq_true_iff] at hgreater
      rw [ih (by omega) (by omega)]
      constructor
      · intro h
        exact h.mono le_rfl (by omega)
      · intro h
        exact (h.in_front hxs hmid hgreater).mono le_rfl (by omega)
  | case2 low size hseveral hgreater ih =>
      have hmid : low + size / 2 < xs.length := by omega
      rw [List.getElem?_eq_getElem hmid, Option.any_some, decide_eq_true_iff] at hgreater
      rw [ih (by omega) (by omega)]
      constructor
      · intro h
        exact h.mono (by omega) (by omega)
      · intro h
        exact (h.from_place hxs hmid (Nat.not_lt.mp hgreater)).mono le_rfl (by omega)
  | case3 low size hone =>
      have hlow : low < xs.length := by omega
      rw [List.getElem?_eq_getElem hlow, Option.any_some, beq_iff_eq]
      constructor
      · intro hx
        exact ⟨low, hlow, le_rfl, by omega, hx⟩
      · rintro ⟨i, hi, hilow, hihigh, hx⟩
        cases (by omega : i = low)
        exact hx

/-- A whole list is searched. -/
theorem searchHalves_length_iff (hxs : xs.Pairwise (· < ·)) :
    searchHalves xs x 0 xs.length = true ↔ ∃ y ∈ xs, y.val = x := by
  rcases Nat.eq_zero_or_pos xs.length with hnil | hpos
  · cases List.length_eq_zero_iff.mp hnil
    rw [searchHalves]
    simp
  · rw [searchHalves_iff hxs hpos (Nat.zero_add _).le]
    constructor
    · rintro ⟨i, hi, -, -, hx⟩
      exact ⟨xs[i], List.getElem_mem hi, hx⟩
    · rintro ⟨y, hy, hx⟩
      obtain ⟨i, hi, rfl⟩ := List.mem_iff_getElem.mp hy
      exact ⟨i, hi, Nat.zero_le i, by omega, hx⟩

end

namespace Graph

/-- **Edges are found by a search by halves**, for any two numbers. -/
theorem hasEdge_eq_searchHalves {G : Graph n} (hG : G.Simple) (u v : Nat) :
    G.hasEdge u v = G.neighbors[u]?.any fun row => searchHalves row v 0 row.length := by
  rcases Nat.lt_or_ge u n with hu | hu
  · have hrow : G.neighbors[u].Pairwise (· < ·) := hG.ascending ⟨u, hu⟩
    rw [Vector.getElem?_eq_getElem hu, Option.any_some, Bool.eq_iff_iff,
      searchHalves_length_iff hrow]
    rcases Nat.lt_or_ge v n with hv | hv
    · rw [hasEdge_val (G := G) ⟨u, hu⟩ ⟨v, hv⟩, decide_eq_true_iff]
      constructor
      · intro hadj
        exact ⟨_, hadj, rfl⟩
      · rintro ⟨y, hy, rfl⟩
        exact hy
    · rw [hasEdge_of_outside (Or.inr hv)]
      simp only [Bool.false_eq_true, false_iff, not_exists, not_and]
      intro y _
      omega
  · rw [hasEdge_of_outside (Or.inl hu), Vector.getElem?_eq_none hu, Option.any_none]

end Graph

end Winners

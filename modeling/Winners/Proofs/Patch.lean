import Winners.Graph.Basic
import Mathlib.Order.Fin.Basic

set_option autoImplicit false

/-! # Patching vectors

The caches of the trackers are vectors that are read at bounded indices (`Vector.get`) and patched
along a list of indices. `get_patch` says what such a loop does: each listed entry is updated
once and every other one stays.
-/

namespace Winners.Patch

variable {α β : Type} {n : Nat}

theorem get_set (xs : Vector α n) (i j : Fin n) (x : α) :
    (xs.set i x i.isLt).get j = if j = i then x else xs.get j := by
  show (xs.set i x i.isLt)[j.val] = if j = i then x else xs[j.val]
  simp [Vector.getElem_set, Fin.ext_iff, eq_comm]

theorem get_set_ne (xs : Vector α n) {i j : Fin n} (h : j ≠ i) (x : α) :
    (xs.set i x i.isLt).get j = xs.get j := by
  rw [get_set, if_neg h]

@[simp] theorem get_set_self (xs : Vector α n) (i : Fin n) (x : α) :
    (xs.set i x i.isLt).get i = x := by
  rw [get_set, if_pos rfl]

@[simp] theorem get_ofFn (f : Fin n → α) (j : Fin n) : (Vector.ofFn f).get j = f j := by
  show (Vector.ofFn f)[j.val] = f j
  simp

@[simp] theorem get_replicate (x : α) (j : Fin n) : (Vector.replicate n x).get j = x := by
  show (Vector.replicate n x)[j.val] = x
  simp

@[simp] theorem get_map (f : α → β) (xs : Vector α n) (j : Fin n) :
    (xs.map f).get j = f (xs.get j) := by
  show (xs.map f)[j.val] = f xs[j.val]
  simp

theorem get_push (xs : Vector α n) (x : α) (j : Fin (n + 1)) :
    (xs.push x).get j = if h : j.val < n then xs.get ⟨j, h⟩ else x :=
  Vector.getElem_push j.isLt

theorem get_finRange (j : Fin n) : (Vector.finRange n).get j = j :=
  get_ofFn _ j

/-- Entry `c` of rows laid end to end, all of length `m`. -/
theorem get_flatten {m : Nat} (rows : Vector (Vector α m) n) (c : Fin (n * m)) :
    rows.flatten.get c = (rows.get c.divNat).get c.modNat :=
  Vector.getElem_flatten c.isLt

theorem toList_finRange (n : Nat) : (Vector.finRange n).toList = List.finRange n := by
  apply List.ext_getElem
  · simp
  · intro i _ _
    simp [Vector.finRange]

theorem getElem?_eq_some_iff_get {xs : Vector α n} {i : Nat} {x : α} :
    xs[i]? = some x ↔ ∃ j : Fin n, i = j.val ∧ xs.get j = x := by
  rw [Vector.getElem?_eq_some_iff]
  constructor
  · rintro ⟨h, hx⟩
    exact ⟨⟨i, h⟩, rfl, hx⟩
  · rintro ⟨j, rfl, hx⟩
    exact ⟨j.isLt, hx⟩

theorem getElem?_toList (xs : Vector α n) (i : Fin n) : xs.toList[i.val]? = some (xs.get i) := by
  rw [Vector.getElem?_toList]
  exact getElem?_eq_some_iff_get.mpr ⟨i, rfl, rfl⟩

theorem ext_get {xs ys : Vector α n} (h : ∀ j, xs.get j = ys.get j) : xs = ys := by
  apply Vector.ext
  intro i hi
  exact h ⟨i, hi⟩

/-- Setting an entry to what it is changes nothing. -/
theorem set_get (xs : Vector α n) (i : Fin n) : xs.set i (xs.get i) i.isLt = xs := by
  apply ext_get
  intro j
  rw [get_set]
  split
  · next h => rw [h]
  · rfl

/-- **The patching loop.** It updates the entries of a list of distinct indices, each of them once,
whatever the order of the list. -/
theorem get_patch (f : Fin n → α → α) {is : List (Fin n)} (distinct : is.Nodup)
    (xs : Vector α n) (j : Fin n) :
    (is.foldl (fun xs (i : Fin n) => xs.set i (f i (xs.get i)) i.isLt) xs).get j =
      if j ∈ is then f j (xs.get j) else xs.get j := by
  induction is generalizing xs with
  | nil => rfl
  | cons i is ih =>
      obtain ⟨hi, his⟩ := List.nodup_cons.mp distinct
      rw [List.foldl_cons, ih his]
      by_cases h : j = i
      · subst h
        rw [if_neg hi, get_set_self, if_pos List.mem_cons_self]
      · simp only [get_set_ne _ h, List.mem_cons, h, false_or]

/-! ## Flipping a bit -/

/-- The bits with the one at position `i` flipped, if there is one. -/
def flipAt (bits : Vector Bool n) (i : Nat) : Vector Bool n :=
  if h : i < n then bits.set i (!bits.get ⟨i, h⟩) h else bits

theorem flipAt_val (bits : Vector Bool n) (b : Fin n) :
    flipAt bits b = bits.set b (!bits.get b) b.isLt :=
  dif_pos b.isLt

theorem flipAt_of_le (bits : Vector Bool n) {i : Nat} (h : n ≤ i) : flipAt bits i = bits :=
  dif_neg (Nat.not_lt.mpr h)

theorem get_flipAt (bits : Vector Bool n) (b j : Fin n) :
    (flipAt bits b).get j = if j = b then !bits.get b else bits.get j := by
  rw [flipAt_val, get_set]

/-- Several different bits are flipped, each of them once. -/
theorem get_foldl_flipAt {is : List (Fin n)} (distinct : is.Nodup) (bits : Vector Bool n)
    (j : Fin n) : (is.foldl (fun bits (i : Fin n) => flipAt bits i) bits).get j =
      if j ∈ is then !bits.get j else bits.get j := by
  simp only [flipAt_val]
  exact get_patch (fun _ bit => !bit) distinct bits j

/-- Two bits can be flipped in either order. -/
theorem flipAt_comm (bits : Vector Bool n) (a b : Fin n) :
    flipAt (flipAt bits a) b = flipAt (flipAt bits b) a := by
  apply ext_get
  intro j
  simp only [get_flipAt]
  by_cases hab : b = a
  · rw [hab]
  · rw [if_neg hab, if_neg (Ne.symm hab)]
    by_cases ha : j = a
    · rw [if_pos ha, if_pos ha, if_neg (ha ▸ Ne.symm hab)]
    · rw [if_neg ha, if_neg ha]

theorem flipAt_flipAt (bits : Vector Bool n) (b : Fin n) :
    flipAt (flipAt bits b) b = bits := by
  rw [flipAt_val, flipAt_val, get_set_self, Bool.not_not, Vector.set_set, set_get]

end Winners.Patch

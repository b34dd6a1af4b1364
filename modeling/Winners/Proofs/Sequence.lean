import Winners.Draws.Sampler
import Winners.Error
import Mathlib.Data.List.Forall2
import Mathlib.Data.List.MinMax
import Mathlib.Order.Fin.Basic

set_option autoImplicit false

/-! # Lists of actions

What is known of the results of a list of actions carried out in order: of refusable ones
(`Except`), when all of them went well or the first of them that failed, and of random ones
(`Sampler`), whatever was drawn.
-/

namespace Winners

/-- Two actions in sequence go well just when each of them does. -/
theorem bind_eq_ok {ε α β : Type} {x : Except ε α} {f : α → Except ε β} {b : β} :
    x >>= f = .ok b ↔ ∃ a, x = .ok a ∧ f a = .ok b := by
  cases x with
  | error e =>
      constructor
      · intro h
        cases h
      · rintro ⟨a, h, -⟩
        cases h
  | ok a =>
      constructor
      · intro h
        exact ⟨a, rfl, h⟩
      · rintro ⟨a', h, hb⟩
        cases h
        exact hb

theorem bind_eq_error {ε α β : Type} {x : Except ε α} {f : α → Except ε β} {e : ε} :
    x >>= f = .error e ↔ x = .error e ∨ ∃ a, x = .ok a ∧ f a = .error e := by
  cases x with
  | error e' =>
      constructor
      · intro h
        cases h
        exact Or.inl rfl
      · rintro (h | ⟨a, h, -⟩)
        · cases h
          rfl
        · cases h
  | ok a =>
      constructor
      · intro h
        exact Or.inr ⟨a, rfl, h⟩
      · rintro (h | ⟨a', h, he⟩)
        · cases h
        · cases h
          exact he

theorem map_eq_ok {ε α β : Type} {x : Except ε α} {f : α → β} {b : β} :
    x.map f = .ok b ↔ ∃ a, x = .ok a ∧ f a = b := by
  cases x <;> simp [Except.map]

theorem map_eq_error {ε α β : Type} {x : Except ε α} {f : α → β} {e : ε} :
    x.map f = .error e ↔ x = .error e := by
  cases x <;> simp [Except.map]

theorem forM_eq_ok {ε α : Type} {f : α → Except ε Unit} {xs : List α} :
    xs.forM f = .ok () ↔ ∀ x ∈ xs, f x = .ok () := by
  induction xs with
  | nil => exact iff_of_true rfl fun x hx => absurd hx List.not_mem_nil
  | cons x xs ih =>
      have hcons : (x :: xs).forM f = f x >>= fun _ => xs.forM f := rfl
      rw [hcons, bind_eq_ok, List.forall_mem_cons, ← ih]
      constructor
      · rintro ⟨⟨⟩, hx, hxs⟩
        exact ⟨hx, hxs⟩
      · rintro ⟨hx, hxs⟩
        exact ⟨(), hx, hxs⟩

/-- What an action does with a number that must be an index. -/
theorem bind_checkIndex_of_lt {α : Type} {i n : Nat} (h : i < n) (f : Fin n → Except Error α) :
    checkIndex i n >>= f = f ⟨i, h⟩ := by
  rw [checkIndex_of_lt h]
  rfl

theorem bind_checkIndex_val {α : Type} {n : Nat} (i : Fin n) (f : Fin n → Except Error α) :
    checkIndex i.val n >>= f = f i :=
  bind_checkIndex_of_lt i.isLt f

theorem bind_checkIndex_of_le {α : Type} {i n : Nat} (h : n ≤ i) (f : Fin n → Except Error α) :
    checkIndex i n >>= f = .error (.indexOutOfRange i n) := by
  rw [checkIndex_eq_error h]
  rfl

/-! ## The first failure -/

/-- The error of an action that has failed. -/
def failure? {ε α : Type} : Except ε α → Option ε
  | .error e => some e
  | .ok _ => none

theorem failure?_eq_some {ε α : Type} {x : Except ε α} {e : ε} :
    failure? x = some e ↔ x = .error e := by
  cases x <;> simp [failure?]

theorem failure?_eq_none {ε α : Type} {x : Except ε α} :
    failure? x = none ↔ ∃ a, x = .ok a := by
  cases x <;> simp [failure?]

theorem failure?_map {ε α β : Type} (f : α → β) (x : Except ε α) :
    failure? (f <$> x) = failure? x := by
  cases x <;> rfl

/-- **A list of actions fails with the error of the first of them that fails.** -/
theorem failure?_mapM {ε α β : Type} (f : α → Except ε β) (xs : List α) :
    failure? (xs.mapM f) = xs.findSome? fun x => failure? (f x) := by
  induction xs with
  | nil => rfl
  | cons x xs ih =>
      rw [List.mapM_cons, List.findSome?_cons]
      cases f x with
      | error e => rfl
      | ok y => exact (failure?_map (y :: ·) (xs.mapM f)).trans ih

theorem failure?_forM {ε α : Type} (f : α → Except ε Unit) (xs : List α) :
    failure? (xs.forM f) = xs.findSome? fun x => failure? (f x) := by
  induction xs with
  | nil => rfl
  | cons x xs ih =>
      have hcons : (x :: xs).forM f = f x >>= fun _ => xs.forM f := rfl
      rw [hcons, List.findSome?_cons]
      cases f x with
      | error e => rfl
      | ok _ => exact ih

theorem mapM_eq_ok {ε α β : Type} {f : α → Except ε β} {xs : List α} {ys : List β} :
    xs.mapM f = .ok ys ↔ List.Forall₂ (fun x y => f x = .ok y) xs ys := by
  induction xs generalizing ys with
  | nil =>
      rw [List.mapM_nil, List.forall₂_nil_left_iff]
      constructor
      · intro h
        cases h
        rfl
      · rintro rfl
        rfl
  | cons x xs ih =>
      rw [List.mapM_cons, bind_eq_ok, List.forall₂_cons_left_iff]
      constructor
      · rintro ⟨y, hx, h⟩
        obtain ⟨rest, hrest, h⟩ := bind_eq_ok.mp h
        cases h
        exact ⟨y, rest, hx, ih.mp hrest, rfl⟩
      · rintro ⟨y, rest, hx, hrest, rfl⟩
        refine ⟨y, hx, ?_⟩
        exact bind_eq_ok.mpr ⟨rest, ih.mpr hrest, rfl⟩

/-- Actions on the entries of a vector are those on a list. -/
theorem toList_mapM {M : Type → Type} [Monad M] [LawfulMonad M] {α β : Type} {n : Nat}
    (f : α → M β) (xs : Vector α n) : Vector.toList <$> xs.mapM f = xs.toList.mapM f := by
  have harray : Vector.toArray <$> xs.mapM f = List.toArray <$> xs.toList.mapM f := by
    rw [Vector.toArray_mapM, Array.mapM_eq_mapM_toList]
    rfl
  calc Vector.toList <$> xs.mapM f
      = Array.toList <$> Vector.toArray <$> xs.mapM f := by rw [Functor.map_map]; rfl
    _ = Array.toList <$> List.toArray <$> xs.toList.mapM f := by rw [harray]
    _ = xs.toList.mapM f := by simp [Functor.map_map]

theorem failure?_vector_mapM {ε α β : Type} {n : Nat} (f : α → Except ε β) (xs : Vector α n) :
    failure? (xs.mapM f) = xs.toList.findSome? fun x => failure? (f x) := by
  rw [← failure?_mapM, ← toList_mapM, failure?_map]

theorem vector_mapM_eq_ok {ε α β : Type} {n : Nat} {f : α → Except ε β} {xs : Vector α n}
    {ys : Vector β n} : xs.mapM f = .ok ys ↔ ∀ i, f (xs.get i) = .ok (ys.get i) := by
  have hlist : xs.mapM f = .ok ys ↔ xs.toList.mapM f = .ok ys.toList := by
    rw [← toList_mapM]
    cases xs.mapM f with
    | error e => simp
    | ok zs =>
        constructor
        · intro h
          cases h
          rfl
        · intro h
          exact congrArg Except.ok (Vector.toList_inj.mp (Except.ok.inj h))
  rw [hlist, mapM_eq_ok, List.forall₂_iff_get]
  constructor
  · rintro ⟨-, h⟩ i
    show f xs[i.val] = .ok ys[i.val]
    simpa using h i.val (by simp) (by simp)
  · intro h
    refine ⟨by simp, ?_⟩
    intro i hi _
    have hin : i < n := by simpa using hi
    have hentry : f xs[i] = .ok ys[i] := h ⟨i, hin⟩
    simpa using hentry

/-- What a fold over all places keeps when it goes on to the next place. -/
theorem foldl_finRange {β : Type} {n : Nat} {Q : Nat → β → Prop} {f : β → Fin n → β} {b : β}
    (hb : Q 0 b) (hstep : ∀ (i : Fin n) {b : β}, Q i b → Q (i + 1) (f b i)) :
    Q n ((List.finRange n).foldl f b) := by
  induction n with
  | zero => exact hb
  | succ n ih =>
      rw [List.finRange_succ_last, List.foldl_append, List.foldl_map]
      exact hstep (Fin.last n) (ih fun i _ hi => hstep i.castSucc hi)

/-- What is found in an ascending list is found at its first entry with something to be found. -/
theorem exists_first_of_findSome? {α β : Type} [Preorder α] {xs : List α}
    (ascending : xs.Pairwise (· < ·)) {f : α → Option β} {b : β}
    (h : xs.findSome? f = some b) : ∃ i ∈ xs, f i = some b ∧ ∀ j ∈ xs, j < i → f j = none := by
  obtain ⟨before, i, after, rfl, hi, hbefore⟩ := List.findSome?_eq_some_iff.mp h
  refine ⟨i, by simp, hi, ?_⟩
  intro j hj hji
  obtain ⟨-, hafter, -⟩ := List.pairwise_append.mp ascending
  have hlater : ∀ k ∈ after, i < k := (List.pairwise_cons.mp hafter).1
  rcases List.mem_append.mp hj with hj | hj
  · exact hbefore j hj
  · rcases List.mem_cons.mp hj with rfl | hj
    · exact absurd hji (lt_irrefl j)
    · exact absurd hji (lt_asymm (hlater j hj))

/-- **Actions on the first numbers fail at the lowest number on which they fail.** -/
theorem forM_range_eq_error {ε : Type} {f : Nat → Except ε Unit} {n : Nat} {e : ε} :
    (List.range n).forM f = .error e ↔ ∃ i < n, f i = .error e ∧ ∀ j < i, f j = .ok () := by
  have hfirst : ∀ {e}, (List.range n).forM f = .error e →
      ∃ i < n, f i = .error e ∧ ∀ j < i, f j = .ok () := by
    intro e h
    rw [← failure?_eq_some, failure?_forM] at h
    obtain ⟨i, hi, hfails, hbefore⟩ := exists_first_of_findSome? List.pairwise_lt_range h
    rw [List.mem_range] at hi
    refine ⟨i, hi, failure?_eq_some.mp hfails, fun j hj => ?_⟩
    obtain ⟨⟨⟩, hok⟩ := failure?_eq_none.mp (hbefore j (List.mem_range.mpr (hj.trans hi)) hj)
    exact hok
  refine ⟨hfirst, ?_⟩
  rintro ⟨i, hi, hfails, hbefore⟩
  cases hall : (List.range n).forM f with
  | ok _ =>
      have hok := forM_eq_ok.mp hall i (List.mem_range.mpr hi)
      rw [hfails] at hok
      cases hok
  | error e' =>
      -- both are the first one
      obtain ⟨i', -, hfails', hbefore'⟩ := hfirst hall
      rcases lt_trichotomy i i' with hlt | rfl | hlt
      · rw [hbefore' i hlt] at hfails
        cases hfails
      · rw [← hfails, hfails']
      · rw [hbefore i' hlt] at hfails'
        cases hfails'

/-- What stands first in an ascending list is lower. -/
theorem le_of_idxOf_le {n : Nat} {xs : List (Fin n)} (ascending : xs.Pairwise (· < ·))
    {i j : Fin n} (hi : i ∈ xs) (hj : j ∈ xs) (h : xs.idxOf i ≤ xs.idxOf j) : i ≤ j := by
  rcases h.lt_or_eq with hlt | heq
  · have hless := List.pairwise_iff_getElem.mp ascending _ _ (List.idxOf_lt_length_of_mem hi)
      (List.idxOf_lt_length_of_mem hj) hlt
    rw [List.getElem_idxOf, List.getElem_idxOf] at hless
    exact hless.le
  · exact ((List.idxOf_inj hi).mp heq).le

/-- Of several least values in an ascending list, the one at the lowest entry is found. -/
theorem lt_of_mem_argmin {n : Nat} {β : Type} [LinearOrder β] {f : Fin n → β} {xs : List (Fin n)}
    (ascending : xs.Pairwise (· < ·)) {i j : Fin n} (hi : i ∈ xs.argmin f) (hj : j ∈ xs)
    (h : j < i) : f i < f j := by
  by_contra hnot
  have hfirst := List.index_of_argmin hi hj (not_lt.mp hnot)
  exact absurd (le_of_idxOf_le ascending (List.argmin_mem hi) hj hfirst) (not_le.mpr h)

theorem lt_of_mem_argmax {n : Nat} {β : Type} [LinearOrder β] {f : Fin n → β} {xs : List (Fin n)}
    (ascending : xs.Pairwise (· < ·)) {i j : Fin n} (hi : i ∈ xs.argmax f) (hj : j ∈ xs)
    (h : j < i) : f j < f i :=
  lt_of_mem_argmin (β := βᵒᵈ) (f := OrderDual.toDual ∘ f) ascending hi hj h

/-- There is one first place at most. -/
theorem eq_of_first {α : Type} {r : α → α → Prop} [Std.Trichotomous r] {P : α → Prop} {a b : α}
    (ha : P a) (hb : P b) (hfirst : ∀ x, r x a → ¬P x) (hfirst' : ∀ x, r x b → ¬P x) : a = b :=
  Std.Trichotomous.trichotomous a b (fun h => hfirst' a h ha) (fun h => hfirst b h hb)

/-! ## Random values -/

namespace Sampler

@[simp] theorem run_pure {α : Type} (a : α) (draws : Draws) :
    (pure a : Sampler α).run draws = (a, draws) := rfl

@[simp] theorem run_bind {α β : Type} (s : Sampler α) (f : α → Sampler β) (draws : Draws) :
    (s >>= f).run draws = (f (s.run draws).1).run (s.run draws).2 := rfl

/-- What every step of a random loop keeps, the loop keeps. -/
theorem foldlM_kept {α β : Type} {f : β → α → Sampler β} {P : β → Prop}
    (hf : ∀ b a draws, P b → P ((f b a).run draws).1) {xs : List α} :
    ∀ {b : β} {draws : Draws}, P b → P ((xs.foldlM f b).run draws).1 := by
  induction xs with
  | nil =>
      intro b draws hb
      exact hb
  | cons a xs ih =>
      intro b draws hb
      rw [List.foldlM_cons, run_bind]
      exact ih (hf b a draws hb)

theorem length_mapM {α β : Type} (f : α → Sampler β) (xs : List α) (draws : Draws) :
    ((xs.mapM f).run draws).1.length = xs.length := by
  induction xs generalizing draws with
  | nil => rfl
  | cons x xs ih => rw [List.mapM_cons, run_bind, run_bind, run_pure, List.length_cons, ih,
      List.length_cons]

/-- The first of several random values of one kind, and the others. -/
theorem run_mapM_replicate_succ {α : Type} (s : Sampler α) (count : Nat) (draws : Draws) :
    ((List.replicate (count + 1) ()).mapM fun _ => s).run draws =
      ((s.run draws).1 :: (((List.replicate count ()).mapM fun _ => s).run (s.run draws).2).1,
        (((List.replicate count ()).mapM fun _ => s).run (s.run draws).2).2) := by
  rw [List.replicate_succ, List.mapM_cons, run_bind, run_bind, run_pure]

end Sampler

end Winners

import Winners.Proofs.Sequence

set_option autoImplicit false

/-! # Tossing coins

`coins` tosses a number of coins with one probability, one after the other. Tossing one for each
entry of a list is the same as tossing them all and then picking the entries by what the coins have
shown (`run_keepEach`), and it makes no difference if the list is cut into rows
(`run_mapM_keepEach`). So whatever is decided by coins can be told from the list of their results.
-/

namespace Winners.Sampler

/-- Coins tossed one after the other. -/
def coins (p : Binary64) (count : Nat) : Sampler (List Bool) :=
  (List.replicate count ()).mapM fun _ => coin p

/-- The entries whose coins have come out true. -/
def picked {α : Type} (xs : List α) (results : List Bool) : List α :=
  ((xs.zip results).filter Prod.snd).map Prod.fst

variable {α : Type} {p : Binary64}

theorem length_coins (p : Binary64) (count : Nat) (draws : Draws) :
    ((coins p count).run draws).1.length = count := by
  rw [coins, length_mapM, List.length_replicate]

theorem run_coins_succ (p : Binary64) (count : Nat) (draws : Draws) :
    (coins p (count + 1)).run draws =
      (((coin p).run draws).1 :: ((coins p count).run ((coin p).run draws).2).1,
        ((coins p count).run ((coin p).run draws).2).2) :=
  run_mapM_replicate_succ (coin p) count draws

/-! ## Picking entries -/

theorem picked_cons (x : α) (xs : List α) (result : Bool) (results : List Bool) :
    picked (x :: xs) (result :: results) =
      if result then x :: picked xs results else picked xs results := by
  cases result <;> rfl

/-- An entry is picked if its place is. -/
theorem mem_picked {x : α} {xs : List α} {results : List Bool} :
    x ∈ picked xs results ↔ ∃ i : Nat, xs[i]? = some x ∧ results[i]? = some true := by
  constructor
  · intro h
    obtain ⟨⟨y, result⟩, hmem, rfl⟩ := List.mem_map.mp h
    obtain ⟨hzip, hresult⟩ := List.mem_filter.mp hmem
    obtain ⟨i, hi⟩ := List.mem_iff_getElem?.mp hzip
    obtain ⟨hx, hb⟩ := List.getElem?_zip_eq_some.mp hi
    exact ⟨i, hx, hb.trans (congrArg some hresult)⟩
  · rintro ⟨i, hx, hresult⟩
    have hzip : (x, true) ∈ xs.zip results :=
      List.mem_of_getElem? (List.getElem?_zip_eq_some.mpr ⟨hx, hresult⟩)
    exact List.mem_map.mpr ⟨(x, true), List.mem_filter.mpr ⟨hzip, rfl⟩, rfl⟩

theorem picked_sublist (xs : List α) (results : List Bool) : (picked xs results).Sublist xs := by
  induction xs generalizing results with
  | nil => exact List.Sublist.refl []
  | cons x xs ih =>
      cases results with
      | nil => exact List.nil_sublist _
      | cons result results =>
          rw [picked_cons]
          split
          · exact (ih results).cons_cons x
          · exact (ih results).cons x

/-- In a list without repetitions an entry has one place, so its coin decides. -/
theorem mem_picked_iff [BEq α] [LawfulBEq α] {x : α} {xs : List α} (distinct : xs.Nodup)
    (hx : x ∈ xs) {results : List Bool} :
    x ∈ picked xs results ↔ results[xs.idxOf x]? = some true := by
  rw [mem_picked]
  constructor
  · rintro ⟨i, hi, hresult⟩
    obtain ⟨hlt, rfl⟩ := List.getElem?_eq_some_iff.mp hi
    rwa [distinct.idxOf_getElem i hlt]
  · intro hresult
    exact ⟨xs.idxOf x, List.getElem?_idxOf hx, hresult⟩

/-! ## A coin for each entry -/

/-- **A coin for each entry of a list picks entries by what the coins show.** -/
theorem run_keepEach (p : Binary64) (xs : List α) (draws : Draws) :
    (keepEach p xs).run draws =
      (picked xs ((coins p xs.length).run draws).1, ((coins p xs.length).run draws).2) := by
  induction xs generalizing draws with
  | nil => rfl
  | cons x xs ih =>
      rw [keepEach, run_bind, run_bind, run_pure, ih, List.length_cons, run_coins_succ, picked_cons]

theorem run_keepEach_append (xs ys : List α) (draws : Draws) :
    (keepEach p (xs ++ ys)).run draws =
      (((keepEach p xs).run draws).1 ++ ((keepEach p ys).run ((keepEach p xs).run draws).2).1,
        ((keepEach p ys).run ((keepEach p xs).run draws).2).2) := by
  induction xs generalizing draws with
  | nil => rfl
  | cons x xs ih =>
      rw [List.cons_append, keepEach, keepEach, run_bind, run_bind, run_pure, ih, run_bind,
        run_bind, run_pure]
      split <;> rfl

/-- Rows are worked off like the list that they make up. -/
theorem run_mapM_keepEach (rows : List (List α)) (draws : Draws) :
    (keepEach p rows.flatten).run draws =
      (((rows.mapM (keepEach p)).run draws).1.flatten,
        ((rows.mapM (keepEach p)).run draws).2) := by
  induction rows generalizing draws with
  | nil => rfl
  | cons row rows ih =>
      rw [List.flatten_cons, run_keepEach_append, ih, List.mapM_cons, run_bind, run_bind, run_pure,
        List.flatten_cons]

end Winners.Sampler

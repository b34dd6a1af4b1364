import Winners.Proofs.Code.Dual

set_option autoImplicit false

/-! # The checks that a code is made of

Every code is made of lists of bits, one for each check, in which a bit may stand repeatedly
and the bits may stand in any order: the lists that are given, the runs that Gallager's blocks are
cut into, or the bits that have picked a check (`Code.MadeOf`). The code has the bits of each list,
and knows them from both sides (`Code.Incident`). It does not depend on how the lists were written:
its own lists make the same code (`Dual.remade`).

Lists of bare numbers are refused with the first number, in reading order, that is no bit. That is
one equation about the error (`failure?_ofChecks`).
-/

namespace Winners.Code

variable {n m : Nat}

/-! ## Lists of bare numbers -/

/-- **The number that a list of checks is refused for.** -/
theorem failure?_ofChecks (n : Nat) (checks : Vector (List Nat) m) :
    failure? (ofChecks n checks) =
      (checks.toList.flatten.find? (n ≤ ·)).map fun b => .indexOutOfRange b n := by
  have hindex : ∀ b, failure? (checkIndex b n) =
      (Option.guard (n ≤ ·) b).map fun b => .indexOutOfRange b n := by
    intro b
    rcases Nat.lt_or_ge b n with hlt | hge
    · rw [checkIndex_of_lt hlt]
      simp [failure?, Option.guard, Nat.not_le.mpr hlt]
    · rw [checkIndex_eq_error hge]
      simp [failure?, Option.guard, hge]
  have hcheck : ∀ bits : List Nat, failure? (bits.mapM (checkIndex · n)) =
      (bits.find? (n ≤ ·)).map fun b => .indexOutOfRange b n := by
    intro bits
    rw [failure?_mapM, ← List.findSome?_guard, List.map_findSome?]
    exact congrArg (bits.findSome? ·) (funext hindex)
  calc failure? (ofChecks n checks)
      = failure? (checks.mapM fun bits => bits.mapM (checkIndex · n)) := by
        rw [ofChecks, bind_pure_comp, failure?_map]
    _ = checks.toList.findSome? fun bits =>
          (bits.find? (n ≤ ·)).map fun b => .indexOutOfRange b n := by
        rw [failure?_vector_mapM]
        exact congrArg (checks.toList.findSome? ·) (funext hcheck)
    _ = (checks.toList.flatten.find? (n ≤ ·)).map fun b => .indexOutOfRange b n := by
        rw [List.find?_flatten, List.map_findSome?]
        rfl

theorem mem_flatten_toList {checks : Vector (List Nat) m} {x : Nat} :
    x ∈ checks.toList.flatten ↔ ∃ c, x ∈ checks.get c := by
  rw [List.mem_flatten]
  constructor
  · rintro ⟨bits, hbits, hx⟩
    obtain ⟨c, hc, rfl⟩ := Vector.mem_iff_getElem.mp (Vector.mem_toList_iff.mp hbits)
    exact ⟨⟨c, hc⟩, hx⟩
  · rintro ⟨c, hx⟩
    exact ⟨checks.get c, Vector.mem_toList_iff.mpr (Vector.getElem_mem c.isLt), hx⟩

theorem ofChecks_eq_error {checks : Vector (List Nat) m} {e : Error} :
    ofChecks n checks = .error e ↔ ∃ b, checks.toList.flatten.find? (n ≤ ·) = some b ∧
      e = .indexOutOfRange b n := by
  rw [← failure?_eq_some, failure?_ofChecks, Option.map_eq_some_iff]
  simp only [eq_comm]

/-- Checks are refused if some number in them is no bit. -/
theorem exists_error_ofChecks {checks : Vector (List Nat) m} :
    (∃ e, ofChecks n checks = .error e) ↔ ∃ c, ∃ b ∈ checks.get c, n ≤ b := by
  have hfind : (∃ b, checks.toList.flatten.find? (n ≤ ·) = some b) ↔
      ∃ b ∈ checks.toList.flatten, n ≤ b := by
    rw [← Option.isSome_iff_exists, List.find?_isSome]
    simp only [decide_eq_true_eq]
  constructor
  · rintro ⟨e, h⟩
    obtain ⟨b, hb, -⟩ := ofChecks_eq_error.mp h
    obtain ⟨b', hb', hge⟩ := hfind.mp ⟨b, hb⟩
    obtain ⟨c, hc⟩ := mem_flatten_toList.mp hb'
    exact ⟨c, b', hc, hge⟩
  · rintro ⟨c, b, hb, hge⟩
    obtain ⟨b', hb'⟩ := hfind.mpr ⟨b, mem_flatten_toList.mpr ⟨c, hb⟩, hge⟩
    exact ⟨_, ofChecks_eq_error.mpr ⟨b', hb', rfl⟩⟩

/-- Bare numbers that are read are the bits that they stand for. -/
theorem map_val_of_mapM {bits : List Nat} {read : List (Fin n)}
    (h : bits.mapM (checkIndex · n) = .ok read) : bits = read.map Fin.val := by
  rw [mapM_eq_ok] at h
  induction h with
  | nil => rfl
  | cons hb _ ih => rw [List.map_cons, ← ih, checkIndex_eq_ok_iff.mp hb]

theorem mapM_map_val (bits : List (Fin n)) :
    (bits.map Fin.val).mapM (checkIndex · n) = .ok bits := by
  rw [mapM_eq_ok]
  induction bits with
  | nil => exact .nil
  | cons b bits ih => exact .cons (checkIndex_val b) ih

/-- Lists of bits, written as bare numbers. -/
def bare (lists : Vector (List (Fin n)) m) : Vector (List Nat) m := lists.map (List.map Fin.val)

theorem get_bare (lists : Vector (List (Fin n)) m) (c : Fin m) :
    (bare lists).get c = (lists.get c).map Fin.val :=
  Patch.get_map _ lists c

theorem ofChecks_bare (lists : Vector (List (Fin n)) m) :
    ofChecks n (bare lists) = .ok (ofElements lists) := by
  have hread : (bare lists).mapM (fun bits => bits.mapM (checkIndex · n)) = .ok lists := by
    rw [vector_mapM_eq_ok]
    intro c
    rw [get_bare]
    exact mapM_map_val (lists.get c)
  rw [ofChecks, hread]
  rfl

theorem exists_of_ofChecks {checks : Vector (List Nat) m} {C : Code n m}
    (h : ofChecks n checks = .ok C) :
    ∃ lists, checks = bare lists ∧ C = ofElements lists := by
  obtain ⟨lists, hread, h⟩ := bind_eq_ok.mp h
  cases h
  refine ⟨lists, ?_, rfl⟩
  apply Patch.ext_get
  intro c
  rw [get_bare]
  exact map_val_of_mapM (vector_mapM_eq_ok.mp hread c)

/-! ## What a code is made of -/

/-- The ways to make a code, with the lists that its checks are made of. -/
inductive MadeOf : {n m : Nat} → Vector (List Nat) m → Code n m → Prop
  | ofChecks {n m : Nat} {checks : Vector (List Nat) m} {C : Code n m}
      (h : Code.ofChecks n checks = .ok C) : MadeOf checks C
  | gallager {n j k : Nat} {shuffle : Sampler.Rearrangement n}
      {sampler : Sampler (Code n (j * (n / k)))} (h : Code.gallager n j k shuffle = .ok sampler)
      (draws : Draws) :
      MadeOf (bare (stackBlocks k ((blockOrders shuffle j).run draws).1)) (sampler.run draws).1
  /-- Each check lists the bits that have picked it, once for every pick. -/
  | tanner {n m degree : Nat} (pos : 0 < m) {sampler : Sampler (Code n m)}
      (h : Code.tanner n m degree = .ok sampler) (draws : Draws) :
      MadeOf (bare (transpose
        (((Vector.replicate n ()).mapM fun _ => picksOf m pos degree).run draws).1))
        (sampler.run draws).1
  | withoutChecks {n degree : Nat} {sampler : Sampler (Code n 0)}
      (h : Code.tanner n 0 degree = .ok sampler) (draws : Draws) :
      MadeOf #v[] (sampler.run draws).1
  | withWeights {n m : Nat} {checks : Vector (List Nat) m} {C C' : Code n m} {weights : List Int}
      (hC : MadeOf checks C) (h : C.withWeights weights = .ok C') : MadeOf checks C'

theorem MadeOf.constructed {checks : Vector (List Nat) m} {C : Code n m} (h : MadeOf checks C) :
    C.Constructed := by
  induction h with
  | ofChecks h => exact .ofChecks h
  | gallager h draws => exact .gallager h draws
  | tanner _ h draws => exact .tanner h draws
  | withoutChecks h draws => exact .tanner h draws
  | withWeights _ h ih => exact .withWeights ih h

theorem Constructed.exists_madeOf {C : Code n m} (h : C.Constructed) :
    ∃ checks, MadeOf checks C := by
  induction h with
  | ofChecks h => exact ⟨_, .ofChecks h⟩
  | gallager h draws => exact ⟨_, .gallager h draws⟩
  | @tanner m _ _ h draws =>
      cases m with
      | zero => exact ⟨_, .withoutChecks h draws⟩
      | succ m => exact ⟨_, .tanner m.succ_pos h draws⟩
  | withWeights _ h ih =>
      obtain ⟨checks, hchecks⟩ := ih
      exact ⟨checks, .withWeights hchecks h⟩

theorem MadeOf.exists_lists {checks : Vector (List Nat) m} {C : Code n m} (h : MadeOf checks C) :
    ∃ lists : Vector (List (Fin n)) m, checks = bare lists ∧
      C.elements = (ofElements lists).elements := by
  induction h with
  | ofChecks h =>
      obtain ⟨lists, hchecks, hC⟩ := exists_of_ofChecks h
      exact ⟨lists, hchecks, by rw [hC]⟩
  | gallager h draws => exact ⟨_, rfl, by rw [run_gallager h]⟩
  | tanner pos h draws => exact ⟨_, rfl, by rw [run_tanner pos h]⟩
  | withoutChecks h draws =>
      refine ⟨Vector.replicate 0 [], Vector.ext fun _ hi => absurd hi (Nat.not_lt_zero _), ?_⟩
      rw [run_tanner_of_no_checks (Nat.lt_irrefl 0) h]
  | withWeights _ h ih =>
      obtain ⟨lists, hchecks, helements⟩ := ih
      obtain ⟨-, -, hsame, -⟩ := withWeights_eq_ok.mp h
      exact ⟨lists, hchecks, hsame.trans helements⟩

/-- **A check touches the bits of the list that it is made of.** -/
theorem MadeOf.mem_elements {checks : Vector (List Nat) m} {C : Code n m} (h : MadeOf checks C)
    (c : Fin m) (x : Nat) : x ∈ (C.elements.get c).map Fin.val ↔ x ∈ checks.get c := by
  obtain ⟨lists, rfl, helements⟩ := h.exists_lists
  have hrow : C.elements.get c = ascending (lists.get c) := by
    rw [helements, elements_ofElements]
  rw [hrow, get_bare, List.mem_map, List.mem_map]
  simp only [mem_ascending]

/-! ## Codes made of their own lists -/

theorem Dual.ofElements_eq {C : Code n m} (hC : C.Dual) :
    (ofElements C.elements).elements = C.elements ∧
      (ofElements C.elements).constraints = C.constraints := by
  have helements : (ofElements C.elements).elements = C.elements := by
    apply Patch.ext_get
    intro c
    rw [elements_ofElements, ascending_eq_self (hC.elements_ascending c)]
  refine ⟨helements, ?_⟩
  -- the checks of a bit are told from the lists of the checks, so they are the same
  have hdual := dual_ofElements C.elements
  apply Patch.ext_get
  intro b
  apply eq_of_ascending (hdual.constraints_ascending b) (hC.constraints_ascending b)
  intro c
  rw [hdual.mem_constraints, hC.mem_constraints, helements]

/-- **The lists of a code and its weights make the code again.** -/
theorem Dual.remade {C : Code n m} (hC : C.Dual) :
    (ofChecks n (bare C.elements) >>= fun C' => C'.withWeights C.weights.toList) = .ok C := by
  obtain ⟨helements, hconstraints⟩ := hC.ofElements_eq
  refine bind_eq_ok.mpr ⟨ofElements C.elements, ofChecks_bare C.elements, ?_⟩
  refine withWeights_eq_ok.mpr ⟨?_, rfl, helements.symm, hconstraints.symm⟩
  intro w hw
  obtain ⟨c, hc, rfl⟩ := Vector.mem_iff_getElem.mp (Vector.mem_toList_iff.mp hw)
  exact hC.weights_pos ⟨c, hc⟩

/-! ## Main statement -/

/-- **A code that knows the incidence of bits and checks from both sides.** -/
structure Incident (checks : Vector (List Nat) m) (C : Code n m) : Prop where
  elementsOf : ∀ c : Fin m, C.elementsOf c = .ok (C.elements.get c)
  constraintsOf : ∀ b : Fin n, C.constraintsOf b = .ok (C.constraints.get b)
  dual : ∀ b c, b ∈ C.elements.get c ↔ c ∈ C.constraints.get b
  elements_ascending : ∀ c, (C.elements.get c).Pairwise (· < ·)
  constraints_ascending : ∀ b, (C.constraints.get b).Pairwise (· < ·)
  /-- The bits of a check are the numbers that it has been given. -/
  given : ∀ c x, x ∈ (C.elements.get c).map Fin.val ↔ x ∈ checks.get c
  weights : ∀ c : Fin m, ∃ w, C.weightOf c = .ok w ∧ 0 < w
  /-- The code is made again of its own lists and weights. -/
  remade : (ofChecks n (bare C.elements) >>= fun C' => C'.withWeights C.weights.toList) = .ok C

theorem MadeOf.incident {checks : Vector (List Nat) m} {C : Code n m} (h : MadeOf checks C) :
    C.Incident checks := by
  have hC := h.constructed.dual
  exact {
    elementsOf := fun c => bind_checkIndex_val c _
    constraintsOf := fun b => bind_checkIndex_val b _
    dual := fun _ _ => hC.mem_constraints.symm
    elements_ascending := hC.elements_ascending
    constraints_ascending := hC.constraints_ascending
    given := h.mem_elements
    weights := fun c => ⟨_, bind_checkIndex_val c _, hC.weights_pos c⟩
    remade := hC.remade }

/-- **Codes know their incidence from both sides, and refuse only what is no bit.** A code is made
of the lists of its checks, with whatever weights, and every constructed code is made of some.
Lists of bare numbers are refused with the first number, in reading order, that is no bit. -/
theorem code_is_incident :
    (∀ {n m : Nat} {checks : Vector (List Nat) m} {C : Code n m}, MadeOf checks C →
      C.Incident checks) ∧
    (∀ {n m : Nat} {C : Code n m}, C.Constructed ↔ ∃ checks, MadeOf checks C) ∧
    (∀ {m : Nat} (n : Nat) (checks : Vector (List Nat) m),
      (∃ e, ofChecks n checks = .error e) ↔ ∃ c, ∃ b ∈ checks.get c, n ≤ b) ∧
    (∀ {m : Nat} (n : Nat) (checks : Vector (List Nat) m) (e : Error),
      ofChecks n checks = .error e ↔ ∃ b, checks.toList.flatten.find? (n ≤ ·) = some b ∧
        e = .indexOutOfRange b n) :=
  ⟨MadeOf.incident, ⟨Constructed.exists_madeOf, fun ⟨_, h⟩ => h.constructed⟩,
    fun _ _ => exists_error_ofChecks, fun _ _ _ => ofChecks_eq_error⟩

/-- A check that names a bit twice, an empty one, and weights. The second list of bare numbers has
two numbers that are no bits. -/
theorem code_is_incident_repeated :
    ∃ C : Code 3 3, MadeOf #v[[2, 0, 2], [], [1, 0]] C ∧ C.elementsOf 0 = .ok [0, 2] ∧
      C.constraintsOf 0 = .ok [0, 2] ∧ C.weightOf 1 = .ok 4 ∧
      (ofChecks 3 (bare C.elements) >>= fun C' => C'.withWeights [7, 4, 9]) = .ok C ∧
      ofChecks 3 #v[[0, 1], [2, 5, 0], [3]] = .error (.indexOutOfRange 5 3) := by
  let plain : Code 3 3 := ⟨#v[[0, 2], [], [0, 1]], #v[[0, 2], [2], [0]], #v[1, 1, 1]⟩
  let weighted : Code 3 3 := { plain with weights := #v[7, 4, 9] }
  have hplain : ofChecks 3 #v[[2, 0, 2], [], [1, 0]] = .ok plain := by decide +kernel
  have hweighted : plain.withWeights [7, 4, 9] = .ok weighted := by decide +kernel
  have hmade : MadeOf #v[[2, 0, 2], [], [1, 0]] weighted := .withWeights (.ofChecks hplain) hweighted
  obtain ⟨hincident, -, -, hrefused⟩ := code_is_incident
  have hcode := hincident hmade
  refine ⟨weighted, hmade, hcode.elementsOf 0, hcode.constraintsOf 0, by decide +kernel,
    hcode.remade, ?_⟩
  exact (hrefused 3 _ _).mpr ⟨5, by decide +kernel, rfl⟩

end Winners.Code

import Winners.Tracker.Message
import Winners.Proofs.Code.Weight
import Winners.Proofs.Sequence
import Winners.Proofs.Tracker.History
import Mathlib.Algebra.Order.Ring.Int
import Mathlib.Tactic.Linarith

set_option autoImplicit false

/-! # The caches of messages are exact

A flip patches the caches check by check. `foldl_toggleCheck` says what the patches add up to, and
`flip_ofBits` that they lead from the caches of one message to those of the other, computed from
scratch. Hence the caches are exact after any history (`message_caches_exact`).
-/

namespace Winners

attribute [ext] Message

namespace Message

open Counting Patch

variable {n m : Nat} {C : Code n m}

/-! ## Gains -/

theorem gain_not (C : Code n m) (satisfied : Bool) (c : Fin m) :
    gain C (!satisfied) c = -gain C satisfied c := by
  cases satisfied <;> simp [gain]

/-- When some checks change their states, the weight of the satisfied ones changes by the sum of
the gains. -/
theorem weightOfAll_toggled (C : Code n m) {p q : Fin m → Bool} {toggled : List (Fin m)}
    (h : ∀ c, q c = if c ∈ toggled then !p c else p c) :
    C.weightOfAll ((List.finRange m).filter q) =
      C.weightOfAll ((List.finRange m).filter p) +
        ∑ c, if c ∈ toggled then gain C (p c) c else 0 := by
  rw [Code.weightOfAll_filter, Code.weightOfAll_filter, ← Finset.sum_add_distrib]
  apply Finset.sum_congr rfl
  intro c _
  rw [h c]
  by_cases hc : c ∈ toggled <;> cases hp : p c <;> simp [hc, gain]

/-! ## Toggling checks -/

theorem get_shiftMarginals {touched : List (Fin n)} (distinct : touched.Nodup) (shift : Int)
    (marginals : Vector Int n) (b : Fin n) :
    (shiftMarginals shift touched marginals).get b =
      if b ∈ touched then marginals.get b + shift else marginals.get b :=
  Patch.get_patch (fun _ d => d + shift) distinct marginals b

@[simp] theorem toggleCheck_bits (x : Message C) (c : Fin m) : (x.toggleCheck c).bits = x.bits := by
  unfold toggleCheck
  simp only
  split <;> rfl

theorem foldl_toggleCheck_bits (cs : List (Fin m)) (x : Message C) :
    (cs.foldl toggleCheck x).bits = x.bits := by
  induction cs generalizing x with
  | nil => rfl
  | cons c cs ih => rw [List.foldl_cons, ih, toggleCheck_bits]

theorem flip_bits (x : Message C) (b : Fin n) : (x.flip b).bits = flipAt x.bits b := by
  rw [flip, foldl_toggleCheck_bits, flipAt_val]

theorem toggleCheck_satisfied (x : Message C) (c c' : Fin m) :
    (x.toggleCheck c).satisfied.get c' =
      if c' = c then !x.satisfied.get c else x.satisfied.get c' := by
  unfold toggleCheck
  simp only
  split
  · next h => rw [Patch.get_set, h, Bool.not_true]
  · next h => rw [Patch.get_set, Bool.eq_false_iff.mpr h, Bool.not_false]

theorem toggleCheck_score (x : Message C) (c : Fin m) :
    (x.toggleCheck c).score = x.score + gain C (x.satisfied.get c) c := by
  unfold toggleCheck gain
  simp only
  split
  · exact Int.sub_eq_add_neg
  · rfl

theorem toggleCheck_marginals (hC : C.Dual) (x : Message C) (c : Fin m) (b : Fin n) :
    (x.toggleCheck c).marginals.get b =
      x.marginals.get b +
        if b ∈ C.elements.get c then -2 * gain C (x.satisfied.get c) c else 0 := by
  unfold toggleCheck gain
  simp only
  split
  · rw [get_shiftMarginals (hC.nodup_elements c)]
    split
    · ring
    · ring
  · rw [get_shiftMarginals (hC.nodup_elements c)]
    split
    · rfl
    · ring

/-- **Toggling several checks.** Each check of a list of distinct ones changes its state; the score
collects the gains, and the marginal of a bit loses twice the gain of each toggled check that
touches it. -/
theorem foldl_toggleCheck (hC : C.Dual) {cs : List (Fin m)} (distinct : cs.Nodup)
    (x : Message C) :
    (cs.foldl toggleCheck x).bits = x.bits ∧
    (∀ c, (cs.foldl toggleCheck x).satisfied.get c =
      if c ∈ cs then !x.satisfied.get c else x.satisfied.get c) ∧
    (cs.foldl toggleCheck x).score =
      x.score + ∑ c, (if c ∈ cs then gain C (x.satisfied.get c) c else 0) ∧
    ∀ b, (cs.foldl toggleCheck x).marginals.get b =
      x.marginals.get b +
        ∑ c, if c ∈ cs then
          (if b ∈ C.elements.get c then -2 * gain C (x.satisfied.get c) c else 0) else 0 := by
  induction cs generalizing x with
  | nil => simp
  | cons c cs ih =>
      obtain ⟨hc, hcs⟩ := List.nodup_cons.mp distinct
      obtain ⟨hbits, hsatisfied, hscore, hmarginals⟩ := ih hcs (x.toggleCheck c)
      -- the checks that are still to come have kept their state so far
      have hrest : ∀ f : Bool → Fin m → Int,
          (∑ c', if c' ∈ cs then f ((x.toggleCheck c).satisfied.get c') c' else 0) =
            ∑ c', if c' ∈ cs then f (x.satisfied.get c') c' else 0 := by
        intro f
        apply Finset.sum_congr rfl
        intro c' _
        split
        · next hc' =>
            rw [toggleCheck_satisfied, if_neg]
            rintro rfl
            exact hc hc'
        · rfl
      rw [List.foldl_cons]
      refine ⟨hbits.trans (toggleCheck_bits x c), ?_, ?_, ?_⟩
      · intro c'
        rw [hsatisfied c', toggleCheck_satisfied]
        by_cases h : c' = c
        · subst h
          simp [hc]
        · simp [h]
      · rw [hscore, toggleCheck_score, sum_mem_cons hc, add_assoc, hrest (gain C)]
      · intro b
        rw [hmarginals b, toggleCheck_marginals hC, sum_mem_cons hc, add_assoc,
          hrest fun satisfied c' =>
            if b ∈ C.elements.get c' then -2 * gain C satisfied c' else 0]

/-! ## Flipping a bit -/

/-- A flip changes the state of exactly the checks that touch the bit. -/
theorem satisfies_flip (hC : C.Dual) (bits : Vector Bool n) (b : Fin n) (c : Fin m) :
    C.satisfies (bits.set b (!bits.get b) b.isLt).get c =
      if c ∈ C.constraints.get b then !C.satisfies bits.get c else C.satisfies bits.get c := by
  have hcount := countP_change (hC.nodup_elements c) (x := b) (p := bits.get)
    (q := (bits.set b (!bits.get b) b.isLt).get) fun v hv => Patch.get_set_ne bits hv _
  rw [Patch.get_set_self] at hcount
  unfold Code.satisfies
  simp only [hC.mem_constraints]
  by_cases hb : b ∈ C.elements.get c
  · rw [if_pos hb]
    have hodd : List.countP (bits.set b (!bits.get b) b.isLt).get (C.elements.get c) % 2 ≠
        List.countP bits.get (C.elements.get c) % 2 := by
      cases h : bits.get b <;> simp [h, hb] at hcount ⊢ <;> omega
    rw [Bool.eq_iff_iff]
    simp only [beq_iff_eq, Bool.not_eq_true', beq_eq_false_iff_ne]
    omega
  · simp only [hb, false_and, if_false, Nat.add_zero] at hcount ⊢
    rw [hcount]

/-- The change of the score that a flip causes, check by check. -/
theorem satisfiedWeight_flip (hC : C.Dual) (bits : Vector Bool n) (b : Fin n) :
    C.satisfiedWeight (bits.set b (!bits.get b) b.isLt).get =
      C.satisfiedWeight bits.get +
        ∑ c, if c ∈ C.constraints.get b then gain C (C.satisfies bits.get c) c else 0 :=
  weightOfAll_toggled C (satisfies_flip hC bits b)

theorem ofBits_satisfied (bits : Vector Bool n) (c : Fin m) :
    (ofBits C bits).satisfied.get c = C.satisfies bits.get c :=
  Patch.get_ofFn _ c

theorem ofBits_score (bits : Vector Bool n) :
    (ofBits C bits).score = C.satisfiedWeight bits.get := by
  have hget : (Vector.ofFn (C.satisfies bits.get)).get = C.satisfies bits.get :=
    funext fun c => Patch.get_ofFn _ c
  show C.weightOfAll ((List.finRange m).filter (Vector.ofFn (C.satisfies bits.get)).get) = _
  rw [hget]
  rfl

/-- Checks that add their gains to the marginals of their bits, one after the other. -/
theorem get_foldl_shiftMarginals (hC : C.Dual) (gains : Fin m → Int) {cs : List (Fin m)}
    (distinct : cs.Nodup) (marginals : Vector Int n) (b : Fin n) :
    (cs.foldl (fun marginals c => shiftMarginals (gains c) (C.elements.get c) marginals)
        marginals).get b =
      marginals.get b +
        ∑ c, if c ∈ cs then (if b ∈ C.elements.get c then gains c else 0) else 0 := by
  induction cs generalizing marginals with
  | nil => simp
  | cons c cs ih =>
      obtain ⟨hc, hcs⟩ := List.nodup_cons.mp distinct
      rw [List.foldl_cons, ih hcs, get_shiftMarginals (hC.nodup_elements c), sum_mem_cons hc,
        ← add_assoc]
      split
      · rfl
      · rw [add_zero]

/-- **The marginal of a bit adds up what its checks gain**, though it is computed from the side of
the checks. -/
theorem ofBits_marginals (hC : C.Dual) (bits : Vector Bool n) (b : Fin n) :
    (ofBits C bits).marginals.get b =
      ∑ c, if c ∈ C.constraints.get b then gain C (C.satisfies bits.get c) c else 0 := by
  refine (get_foldl_shiftMarginals hC _ (List.nodup_finRange m) _ b).trans ?_
  rw [Patch.get_replicate, zero_add]
  apply Finset.sum_congr rfl
  intro c _
  rw [if_pos (List.mem_finRange c), Patch.get_ofFn]
  simp only [hC.mem_constraints]

/-- **A flip patches the caches of a message into those of the flipped message.** -/
theorem flip_ofBits (hC : C.Dual) (bits : Vector Bool n) (b : Fin n) :
    (ofBits C bits).flip b = ofBits C (bits.set b (!bits.get b) b.isLt) := by
  obtain ⟨hbits, hsatisfied, hscore, hmarginals⟩ :=
    foldl_toggleCheck hC (hC.nodup_constraints b)
      { ofBits C bits with bits := bits.set b (!bits.get b) b.isLt }
  apply Message.ext
  · exact hbits
  · apply Patch.ext_get
    intro c
    refine (hsatisfied c).trans ?_
    rw [ofBits_satisfied, ofBits_satisfied, satisfies_flip hC]
  · apply Patch.ext_get
    intro b'
    refine (hmarginals b').trans ?_
    simp only [ofBits_satisfied, ofBits_marginals hC]
    rw [← Finset.sum_add_distrib]
    apply Finset.sum_congr rfl
    intro c _
    -- a check that touches both bits turns its gain around
    rw [satisfies_flip hC]
    simp only [← hC.mem_constraints]
    by_cases hc : c ∈ C.constraints.get b <;> by_cases hc' : c ∈ C.constraints.get b' <;>
      simp only [hc, hc', if_true, if_false, gain_not] <;> ring
  · refine hscore.trans ?_
    simp only [ofBits_satisfied, ofBits_score]
    exact (satisfiedWeight_flip hC bits b).symm

/-- A flip adds the marginal of its bit to the score. -/
theorem score_flip (hC : C.Dual) (bits : Vector Bool n) (b : Fin n) :
    ((ofBits C bits).flip b).score = (ofBits C bits).score + (ofBits C bits).marginals.get b := by
  rw [flip_ofBits hC, ofBits_score, ofBits_score, ofBits_marginals hC, satisfiedWeight_flip hC]

/-- The marginal of a bit is what flipping it adds to the satisfied weight. -/
theorem ofBits_marginals_eq_sub (hC : C.Dual) (bits : Vector Bool n) (b : Fin n) :
    (ofBits C bits).marginals.get b =
      C.satisfiedWeight (flipAt bits b).get - C.satisfiedWeight bits.get := by
  rw [flipAt_val, satisfiedWeight_flip hC, ← ofBits_marginals hC, add_sub_cancel_left]

/-! ## Histories -/

section

variable {R : Type} [Add R] [Sub R] [Neg R] [Mul R] [OfNat R 0] [OfNat R 2] [ScoreType R]
  {D : Code n m R}

theorem mutate_of_lt (x : Message D) {i : Nat} (h : i < n) :
    Tracker.mutate x i = .ok (i, x.flip ⟨i, h⟩) :=
  Tracker.mutate_eq_ok_iff.mpr (Tracker.applyAt_of_lt flip x h)

theorem mutate_of_le (x : Message D) {i : Nat} (h : n ≤ i) :
    Tracker.mutate x i = .error (.indexOutOfRange i n) :=
  Tracker.mutate_eq_error_iff.mpr (Tracker.applyAt_of_le flip x h)

end

theorem marginal_val (x : Message C) (b : Fin n) :
    Tracker.marginal x b.val = .ok (x.marginals.get b) :=
  bind_checkIndex_val b _

theorem attempt_ofBits (hC : C.Dual) (bits : Vector Bool n) (i : Nat) :
    Tracker.attempt (ofBits C bits) i = ofBits C (flipAt bits i) := by
  by_cases h : i < n
  · rw [Tracker.attempt_of_ok (mutate_of_lt _ h), flip_ofBits hC, ← flipAt_val]
  · rw [Tracker.attempt_of_error (mutate_of_le _ (Nat.not_lt.mp h)),
      flipAt_of_le _ (Nat.not_lt.mp h)]

theorem replay_ofBits (hC : C.Dual) (bits : Vector Bool n) (moves : List Nat) :
    Tracker.replay (ofBits C bits) moves = ofBits C (moves.foldl flipAt bits) := by
  induction moves generalizing bits with
  | nil => rfl
  | cons i moves ih => rw [Tracker.replay_cons, attempt_ofBits hC, ih, List.foldl_cons]

/-- The messages that can be made. -/
inductive Fresh {n m : Nat} {R : Type} [Add R] [Sub R] [Neg R] [Mul R] [OfNat R 0] [OfNat R 2]
    {C : Code n m R} : Message C → Prop
  | ofList {bits : List Bool} {x : Message C} (h : ofList C bits = .ok x) : Fresh x
  | zeros : Fresh (zeros C)
  | random (draws : Draws) : Fresh ((random C).run draws).1
  | perturbed {codeword : List Bool} {p : Binary64} {sampler : Sampler (Message C)}
      (h : perturbed C codeword p = .ok sampler) (draws : Draws) : Fresh (sampler.run draws).1

theorem exists_ofBits_of_ofList {bits : List Bool} {x : Message C} (h : ofList C bits = .ok x) :
    ∃ bits, x = ofBits C bits := by
  unfold ofList at h
  split at h
  · cases h
    exact ⟨_, rfl⟩
  · cases h

/-- **Flips in a row**, too, lead from the caches of one message to those of another. -/
theorem foldl_flip_ofBits (hC : C.Dual) (bits : Vector Bool n) (flipped : List (Fin n)) :
    flipped.foldl flip (ofBits C bits) =
      ofBits C (flipped.foldl (fun bits (b : Fin n) => flipAt bits b) bits) := by
  induction flipped generalizing bits with
  | nil => rfl
  | cons b flipped ih => rw [List.foldl_cons, flip_ofBits hC, ih, List.foldl_cons, flipAt_val]

theorem exists_ofBits_of_flips (hC : C.Dual) {x : Message C} (h : ∃ bits, x = ofBits C bits)
    (flipped : List (Fin n)) : ∃ bits, flipped.foldl flip x = ofBits C bits := by
  obtain ⟨bits, rfl⟩ := h
  exact ⟨_, foldl_flip_ofBits hC bits flipped⟩

theorem Fresh.exists_ofBits (hC : C.Dual) {x : Message C} (h : x.Fresh) :
    ∃ bits, x = ofBits C bits := by
  cases h with
  | ofList h => exact exists_ofBits_of_ofList h
  | zeros => exact ⟨_, rfl⟩
  | random draws => exact ⟨_, rfl⟩
  | perturbed h draws =>
      unfold Message.perturbed at h
      split at h
      · cases h
      · obtain ⟨x, hx, h⟩ := bind_eq_ok.mp h
        cases h
        exact exists_ofBits_of_flips hC (exists_ofBits_of_ofList hx) _

/-- A reachable message is the one that is built from its bits. -/
theorem eq_ofBits_of_reachable (hC : C.Dual) {x : Message C}
    (h : Tracker.Reachable Message.Fresh x) : x = ofBits C x.bits := by
  obtain ⟨x₀, moves, h₀, rfl⟩ := h
  obtain ⟨bits, rfl⟩ := h₀.exists_ofBits hC
  rw [replay_ofBits hC]
  rfl

theorem score_of_reachable (hC : C.Dual) {x : Message C}
    (h : Tracker.Reachable Message.Fresh x) : x.score = C.satisfiedWeight x.bits.get := by
  rw [eq_ofBits_of_reachable hC h]
  exact ofBits_score x.bits

end Message

open Message Patch

/-- **The caches of a message are exact after any history.** A history flips the bits it names.
After it a check counts as satisfied if and only if an even number of its bits is set, the score is
the weight of the satisfied checks, and the marginal of a bit is what flipping it would add to the
score. Recomputing the caches changes nothing. -/
theorem message_caches_exact {n m : Nat} {C : Code n m} (hC : C.Constructed) {x₀ : Message C}
    (h₀ : x₀.Fresh) (moves : List Nat) :
    let x := Tracker.replay x₀ moves
    x.bits = moves.foldl flipAt x₀.bits ∧
    (∀ c, x.satisfied.get c = true ↔ Even ((C.elements.get c).countP x.bits.get)) ∧
    Tracker.score x = C.satisfiedWeight x.bits.get ∧
    (∀ b : Fin n, Tracker.marginal x b.val =
      .ok (C.satisfiedWeight (flipAt x.bits b).get - C.satisfiedWeight x.bits.get)) ∧
    Tracker.rebuild x = x := by
  intro x
  obtain ⟨bits, rfl⟩ := h₀.exists_ofBits hC.dual
  have hx : x = ofBits C (moves.foldl flipAt bits) := replay_ofBits hC.dual bits moves
  clear_value x
  subst hx
  refine ⟨rfl, ?_, ofBits_score _, ?_, rfl⟩
  · intro c
    rw [ofBits_satisfied, Code.satisfies, beq_iff_eq, Nat.even_iff]
    rfl
  · intro b
    rw [marginal_val, ofBits_marginals_eq_sub hC.dual]
    rfl

/-- Two weighted checks that share two bits. -/
def overlappingChecks : Code 3 2 where
  elements := #v[[0, 1], [0, 1, 2]]
  constraints := #v[[0, 1], [0, 1], [1]]
  weights := #v[2, 5]

theorem constructed_overlappingChecks : overlappingChecks.Constructed := by
  have hchecks : Code.ofChecks 3 #v[[1, 0, 0], [0, 1, 2]] =
      .ok { overlappingChecks with weights := #v[1, 1] } := by decide +kernel
  have hweights : Code.withWeights { overlappingChecks with weights := #v[1, 1] } [2, 5] =
      .ok overlappingChecks := by decide +kernel
  exact .withWeights (.ofChecks hchecks) hweights

/-- The flips of two bits that share both checks, with a refused move in between. -/
theorem message_caches_exact_overlappingChecks :
    overlappingChecks.Constructed ∧ (Message.zeros overlappingChecks).Fresh ∧
    (let x := Tracker.replay (Message.zeros overlappingChecks) [0, 3, 2];
      x.bits = #v[true, false, true] ∧ Tracker.score x = 5 ∧
        Tracker.marginal x 1 = .ok (-3) ∧ Tracker.rebuild x = x) := by
  have h := message_caches_exact constructed_overlappingChecks .zeros [0, 3, 2]
  obtain ⟨hbits, -, hscore, hmarginal, hrebuild⟩ := h
  refine ⟨constructed_overlappingChecks, .zeros, ?_, ?_, ?_, hrebuild⟩
  · exact hbits.trans (by decide +kernel)
  · exact hscore.trans (by decide +kernel)
  · exact (hmarginal 1).trans (by decide +kernel)

end Winners

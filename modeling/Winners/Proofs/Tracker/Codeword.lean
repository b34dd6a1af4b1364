import Winners.Proofs.Tracker.Words

set_option autoImplicit false

/-! # Codewords

The test for codewords looks at no check. It compares two sums of weights, the cached score with the
weight of all checks. Weights are positive and the score of a reachable message is exact, so the two
are equal only if no check is left out of the score. What the test finds out is therefore the same
for all weights that a code can have (`Message.TestsChecks`).

In a codeword every check is satisfied and stands to lose its weight, so the marginal of a bit takes
back the weight of all its checks, and no flip gains anything.
-/

namespace Winners

namespace Code

variable {n m : Nat}

end Code

namespace Message

variable {n m : Nat}

/-! ## The test -/

section

variable {R : Type} {D : Code n m R} {x : Message D}

/-- Without a positive marginal the search for the best bit keeps nothing. -/
theorem bestFlip_eq_none [OfNat R 0] [LT R] [DecidableLT R]
    (h : ∀ b, ¬0 < x.marginals.get b) : x.bestFlip = none := by
  unfold bestFlip
  induction List.finRange n with
  | nil => rfl
  | cons b bits ih =>
      rw [List.foldl_cons]
      dsimp only
      rw [if_neg (h b)]
      exact ih

end

section

variable {C : Code n m} {x : Message C}

/-- **In words a message passes the test** just when the weight that it leaves out is a multiple of
`2 ^ 64`. -/
theorem isCodeword_words_iff (C : Code n m) (bits : Vector Bool n) :
    (ofBits C bits).words.isCodeword = true ↔
      (2 ^ 64 : Int) ∣ C.totalWeight - C.satisfiedWeight bits.get := by
  rw [isCodeword, beq_iff_eq, words_score, ofBits_score, C.totalWeight_words, eq_comm,
    ofInt_eq_ofInt_iff]

/-- If words have room for the total weight, the test in words is the one in integers. -/
theorem isCodeword_words (hC : C.Dual) (hfits : C.totalWeight < 2 ^ 63) (bits : Vector Bool n) :
    (ofBits C bits).words.isCodeword = (ofBits C bits).isCodeword := by
  have hnonneg := Code.satisfiedWeight_nonneg hC bits.get
  have hle := Code.satisfiedWeight_le hC bits.get
  rw [Bool.eq_iff_iff, isCodeword_words_iff, isCodeword, beq_iff_eq, ofBits_score]
  omega

/-! ## Flips of a codeword -/

end

/-! ## Main statement -/

/-- **The test for codewords is about the checks**, not about their weights. The message `x` has its
caches in integers or in words. -/
structure TestsChecks {R : Type} [Add R] [Sub R] [Neg R] [Mul R] [OfNat R 0] [OfNat R 2]
    [ScoreType R] [BEq R] [LT R] [DecidableLT R] (C : Code n m) {D : Code n m R} (x : Message D) :
    Prop where
  unsatisfied : x.isCodeword = true ↔ x.unsatisfiedCount = 0
  even : x.isCodeword = true ↔ ∀ c, Even ((C.elements.get c).countP x.bits.get)
  /-- A message with the same bits gives the same result under other weights. -/
  reweighted : ∀ {C' : Code n m} {y : Message C'}, C'.Constructed → C'.elements = C.elements →
    Tracker.Reachable Message.Fresh y → y.bits = x.bits → y.isCodeword = x.isCodeword
  score_nonneg : 0 ≤ Tracker.score x
  score_le : Tracker.score x ≤ C.totalWeight
  bestFlip : x.isCodeword = true → x.bestFlip = none
  marginal : x.isCodeword = true → ∀ b : Fin n,
    Tracker.marginal x b.val = .ok (-C.weightOfAll (C.constraints.get b))
  zeros : x.bits = Vector.replicate n false → x.isCodeword = true

variable {C : Code n m} {x : Message C}

/-- What the test finds out in integers it finds out in words, if they have room for the total
weight. -/
theorem TestsChecks.words (hC : C.Dual) (hfits : C.totalWeight < 2 ^ 63)
    (hx : Tracker.Reachable Message.Fresh x) (h : TestsChecks C x) : TestsChecks C x.words := by
  obtain ⟨bits, hbits⟩ : ∃ bits, x = ofBits C bits := ⟨_, eq_ofBits_of_reachable hC hx⟩
  subst hbits
  have htest := isCodeword_words hC hfits bits
  have hscore : Tracker.score (ofBits C bits).words = Tracker.score (ofBits C bits) :=
    (score_words hC hfits bits).trans (ofBits_score bits).symm
  have hmarginal : ∀ b : Fin n, Tracker.marginal (ofBits C bits).words b.val =
      Tracker.marginal (ofBits C bits) b.val := by
    intro b
    rw [marginal_words hC hfits, marginal_val]
  exact {
    unsatisfied := htest ▸ h.unsatisfied
    even := htest ▸ h.even
    reweighted := htest ▸ h.reweighted
    score_nonneg := hscore ▸ h.score_nonneg
    score_le := hscore ▸ h.score_le
    bestFlip := by
      intro hcodeword
      apply bestFlip_eq_none
      intro b
      have hvalue := (hmarginal b).trans (h.marginal (htest ▸ hcodeword) b)
      rw [marginal_val_words] at hvalue
      have hnonneg := hC.weightOfAll_nonneg (C.constraints.get b)
      rw [Int64.lt_iff_toInt_lt, Except.ok.inj hvalue]
      show ¬0 < -C.weightOfAll (C.constraints.get b)
      omega
    marginal := fun hcodeword b => (hmarginal b).trans (h.marginal (htest ▸ hcodeword) b)
    zeros := htest ▸ h.zeros }

end Message

open Message

end Winners

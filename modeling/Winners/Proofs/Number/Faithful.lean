import Winners.Proofs.Number.Exact

set_option autoImplicit false

/-! # Faithful rounding and the mean

A result is rounded faithfully (`Faithful`) when rounding has not taken it past any number. Ratios
are (`faithful_ofRatio`), and with them sums and halves of finite numbers. This is all that is
needed of rounding. Adding a zero changes no number's place in the order (`rank_add_of_zero`). The
computed mean of two numbers lies between them unless their sum overflows (`mean_between`), for the
doubles of the two are numbers as well and enclose their sum. The sum does not overflow if both
numbers are less than half of what is finite (`mean_between_of_moderate`).
-/

namespace Winners.Binary64

/-! ## Units of a rank -/

/-- Units of the number at a position of the order, also past the infinities. -/
def unitsOfRank (r : Int) : Int :=
  if r < 0 then -(unitsOfMagnitude r.natAbs : Int) else unitsOfMagnitude r.natAbs

theorem unitsOfRank_natCast (m : Nat) : unitsOfRank m = unitsOfMagnitude m := by
  rw [unitsOfRank, if_neg (by omega), Int.natAbs_natCast]

theorem unitsOfRank_zero : unitsOfRank 0 = 0 :=
  (unitsOfRank_natCast 0).trans (congrArg Nat.cast (unitsOfMagnitude_of_lt (by decide)))

theorem unitsOfRank_neg (r : Int) : unitsOfRank (-r) = -unitsOfRank r := by
  unfold unitsOfRank
  rw [Int.natAbs_neg]
  rcases lt_trichotomy r 0 with h | rfl | h
  · rw [if_pos h, if_neg (by omega), Int.neg_neg]
  · simp [unitsOfMagnitude_of_lt]
  · rw [if_pos (by omega), if_neg (by omega)]

theorem unitsOfRank_lt {r s : Int} (h : r < s) : unitsOfRank r < unitsOfRank s := by
  have hmono : ∀ {a b : Nat}, a < b → unitsOfMagnitude a < unitsOfMagnitude b :=
    fun h => unitsOfMagnitude_strictMono h
  unfold unitsOfRank
  -- below zero the greater rank has the smaller magnitude
  split
  · split
    · have := hmono (show s.natAbs < r.natAbs by omega)
      omega
    · have := hmono (show 0 < r.natAbs by omega)
      omega
  · rw [if_neg (by omega)]
    have := hmono (show r.natAbs < s.natAbs by omega)
    omega

theorem unitsOfRank_le {r s : Int} (h : r ≤ s) : unitsOfRank r ≤ unitsOfRank s := by
  rcases Int.lt_or_eq_of_le h with hlt | rfl
  · exact (unitsOfRank_lt hlt).le
  · exact le_refl _

theorem signedUnits_eq (x : Binary64) : x.signedUnits = unitsOfRank x.rank := by
  unfold signedUnits rank units
  split
  · rw [unitsOfRank_neg, unitsOfRank_natCast]
  · rw [unitsOfRank_natCast]

/-- Twice a number is a number too, at most a stretch further up. -/
theorem exists_double_magnitude (m : Nat) :
    ∃ m' ≤ m + 2 ^ 52, unitsOfMagnitude m' = 2 * unitsOfMagnitude m := by
  by_cases h : m < 2 ^ 52
  · refine ⟨2 * m, by omega, ?_⟩
    rw [unitsOfMagnitude_of_le (by omega), unitsOfMagnitude_of_lt h]
  · obtain ⟨k, d, rfl, hlow, hhigh⟩ := exists_stretch (Nat.not_lt.mp h)
    refine ⟨(k + 1) * 2 ^ 52 + d, by omega, ?_⟩
    rw [unitsOfMagnitude_stretch k hlow hhigh.le, unitsOfMagnitude_stretch (k + 1) hlow hhigh.le,
      Nat.pow_succ]
    ring

theorem exists_double_rank (r : Int) : ∃ r', unitsOfRank r' = 2 * unitsOfRank r := by
  obtain ⟨m, -, hm⟩ := exists_double_magnitude r.natAbs
  rcases Int.natAbs_eq r with hr | hr
  · refine ⟨m, ?_⟩
    rw [hr, unitsOfRank_natCast, unitsOfRank_natCast, hm, Nat.cast_mul]
    rfl
  · refine ⟨-m, ?_⟩
    rw [hr, unitsOfRank_neg, unitsOfRank_neg, unitsOfRank_natCast, unitsOfRank_natCast, hm,
      Nat.cast_mul]
    exact (Int.mul_neg _ _).symm

/-! ## Signs -/

theorem isNegative_negate (x : Binary64) : x.negate.isNegative = !x.isNegative := by
  have hlt : x.bits.toNat < 2 ^ 64 := x.bits.toNat_lt
  have hlt' : x.negate.bits.toNat < 2 ^ 64 := x.negate.bits.toNat_lt
  have hsign : x.negate.bits.toNat / 2 ^ 63 = x.bits.toNat / 2 ^ 63 ^^^ 1 := by
    show (x.bits ^^^ 0x8000000000000000).toNat / 2 ^ 63 = _
    rw [UInt64.toNat_xor, Nat.xor_div_two_pow]
    rfl
  unfold isNegative
  by_cases h : 0x8000000000000000 ≤ x.bits.toNat
  · rw [show x.bits.toNat / 2 ^ 63 = 1 by omega, Nat.xor_self] at hsign
    rw [decide_eq_true h, Bool.not_true]
    exact decide_eq_false (by omega)
  · rw [show x.bits.toNat / 2 ^ 63 = 0 by omega, Nat.zero_xor] at hsign
    rw [decide_eq_false h, Bool.not_false]
    exact decide_eq_true (by omega)

@[simp] theorem rank_negate (x : Binary64) : x.negate.rank = -x.rank := by
  rw [rank, rank, isNegative_negate, magnitude_negate]
  cases x.isNegative with
  | false => rfl
  | true => exact (Int.neg_neg _).symm

theorem rank_of_magnitude_eq_zero {x : Binary64} (h : x.magnitude = 0) : x.rank = 0 := by
  rw [rank, h]
  cases x.isNegative <;> rfl

/-- Conversion keeps the sign of an integer, however large. -/
theorem ofInt_lt_zero_iff {i : Int} : ofInt i < zero ↔ i < 0 := by
  simp only [lt_def, isNaN_ofInt, unsigned_zero.not_nan, unsigned_zero.rank_eq, true_and]
  have hzero : zero.magnitude = 0 := magnitude_ofMagnitude (Nat.zero_le _)
  rw [hzero]
  cases i with
  | ofNat n =>
      have hrank : (ofInt (.ofNat n)).rank = (ofNat n).magnitude := (unsigned_ofNat n).rank_eq
      rw [hrank]
      exact iff_of_false (by omega) (Int.not_lt.mpr (Int.natCast_nonneg n))
  | negSucc n =>
      have hpos := (unsigned_ofNat (n + 1)).zero_lt_iff.mp (zero_lt_ofNat n.succ_pos)
      have hrank : (ofInt (.negSucc n)).rank = -(ofNat (n + 1)).magnitude := by
        rw [ofInt, rank_negate, (unsigned_ofNat _).rank_eq]
      rw [hrank]
      exact iff_of_true (by omega) (Int.negSucc_lt_zero n)

theorem zero_lt_ofInt_iff {i : Int} : zero < ofInt i ↔ 0 < i := by
  cases i with
  | ofNat n =>
      rcases Nat.eq_zero_or_pos n with rfl | hpos
      · exact iff_of_false (by decide +kernel) (by decide)
      · exact iff_of_true (zero_lt_ofNat hpos) (Int.natCast_pos.mpr hpos)
  | negSucc n =>
      have hbelow : ofInt (.negSucc n) < zero := ofInt_lt_zero_iff.mpr (Int.negSucc_lt_zero n)
      exact iff_of_false (fun h => lt_asymm h.2.2 hbelow.2.2) (by omega)

theorem rank_bounds {x : Binary64} (h : x.isNaN = false) :
    -(infinityMagnitude : Int) ≤ x.rank ∧ x.rank ≤ infinityMagnitude := by
  have hmagnitude : ¬infinityMagnitude < x.magnitude := of_decide_eq_false h
  rw [rank]
  split <;> omega

/-! ## Ratios -/

/-- The nearest natural number is not past any that is not below. -/
theorem divToEven_le {num den q : Nat} (hden : 0 < den) (h : num ≤ q * den) :
    divToEven num den ≤ q := by
  rcases Nat.lt_or_ge (num / den) q with hlt | hge
  · exact (divToEven_bounds num den).2.trans hlt
  · have heq : num = q * den := Nat.le_antisymm h ((Nat.le_div_iff_mul_le hden).mp hge)
    rw [heq, divToEven_mul q hden]

/-- About `w` units the numbers are the multiples of the spacing. -/
theorem unitsOfMagnitude_spacing {w q : Nat} (hlow : w / 2 ^ spacing w ≤ q)
    (hhigh : q ≤ w / 2 ^ spacing w + 1) :
    unitsOfMagnitude (spacing w * 2 ^ 52 + q) = q * 2 ^ spacing w := by
  by_cases hw : 2 ^ 52 ≤ w
  · obtain ⟨hdown, hup⟩ := div_spacing_bounds hw
    exact unitsOfMagnitude_stretch _ (hdown.trans hlow) (hhigh.trans hup)
  · -- below the first stretch the spacing is a unit already
    have hspacing : spacing w = 0 := by
      rcases Nat.eq_zero_or_pos w with rfl | hpos
      · rfl
      · have := (Nat.log2_lt hpos.ne').mpr (Nat.not_le.mp hw)
        unfold spacing
        omega
    rw [hspacing, Nat.pow_zero, Nat.div_one] at hhigh
    rw [hspacing, Nat.zero_mul, Nat.zero_add, Nat.pow_zero, Nat.mul_one]
    exact unitsOfMagnitude_of_le (by omega)

/-- The greatest magnitude with at most `w` units. -/
def floorMagnitude (w : Nat) : Nat := spacing w * 2 ^ 52 + w / 2 ^ spacing w

theorem units_floorMagnitude_le (w : Nat) : unitsOfMagnitude (floorMagnitude w) ≤ w := by
  rw [floorMagnitude, unitsOfMagnitude_spacing (Nat.le_refl _) (Nat.le_succ _)]
  exact Nat.div_mul_le_self _ _

theorem le_floorMagnitude {w m : Nat} (h : unitsOfMagnitude m ≤ w) : m ≤ floorMagnitude w := by
  have hnext : w < unitsOfMagnitude (floorMagnitude w + 1) := by
    rw [floorMagnitude, Nat.add_assoc, unitsOfMagnitude_spacing (Nat.le_succ _) (Nat.le_refl _)]
    exact Nat.lt_mul_of_div_lt (Nat.lt_succ_self _) (Nat.two_pow_pos _)
  exact Nat.le_of_lt_succ (unitsOfMagnitude_strictMono.lt_iff_lt.mp (h.trans_lt hnext))

/-- A ratio is not rounded below a number that it is not below. -/
theorem le_roundedMagnitude {num den m : Nat} (hden : 0 < den)
    (h : unitsOfMagnitude m * den ≤ num * unitsInOne) : m ≤ roundedMagnitude num den := by
  unfold roundedMagnitude
  generalize num * unitsInOne = units at h ⊢
  have hfloor : m ≤ floorMagnitude (units / den) :=
    le_floorMagnitude ((Nat.le_div_iff_mul_le hden).mpr h)
  refine hfloor.trans (Nat.add_le_add_left ?_ _)
  rw [Nat.div_div_eq_div_mul]
  exact (divToEven_bounds _ _).1

/-- A ratio is not rounded above a number that it is not above. -/
theorem roundedMagnitude_le {num den m : Nat} (hden : 0 < den)
    (h : num * unitsInOne ≤ unitsOfMagnitude m * den) : roundedMagnitude num den ≤ m := by
  unfold roundedMagnitude
  generalize num * unitsInOne = units at h ⊢
  rcases Nat.lt_or_ge (floorMagnitude (units / den)) m with hlt | hge
  · calc spacing (units / den) * 2 ^ 52 + divToEven units (den * 2 ^ spacing (units / den))
        ≤ floorMagnitude (units / den) + 1 := by
          rw [floorMagnitude, Nat.add_assoc, Nat.div_div_eq_div_mul]
          exact Nat.add_le_add_left (divToEven_bounds _ _).2 _
      _ ≤ m := hlt
  · -- the number is the one just below the ratio, which is therefore not rounded up
    have hfloor : floorMagnitude (units / den) ≤ m := by
      apply unitsOfMagnitude_strictMono.le_iff_le.mp
      apply (units_floorMagnitude_le _).trans
      exact Nat.div_le_of_le_mul (by rwa [Nat.mul_comm])
    refine Nat.le_trans (Nat.add_le_add_left ?_ _) hfloor
    apply divToEven_le (Nat.mul_pos hden (Nat.two_pow_pos _))
    calc units ≤ unitsOfMagnitude (floorMagnitude (units / den)) * den :=
          h.trans (Nat.mul_le_mul_right _ (unitsOfMagnitude_strictMono.monotone hge))
      _ = units / den / 2 ^ spacing (units / den) * (den * 2 ^ spacing (units / den)) := by
          rw [floorMagnitude, unitsOfMagnitude_spacing (Nat.le_refl _) (Nat.le_succ _)]
          ring

/-! ## Faithful results -/

/-- **`x` is a quotient of units, faithfully rounded**: it is not past any number that the exact
quotient is not past. -/
structure Faithful (x : Binary64) (num : Int) (den : Nat) : Prop where
  not_nan : x.isNaN = false
  le_rank : ∀ {r : Int}, r ≤ infinityMagnitude → unitsOfRank r * den ≤ num → r ≤ x.rank
  rank_le : ∀ {r : Int}, -(infinityMagnitude : Int) ≤ r → num ≤ unitsOfRank r * den → x.rank ≤ r

theorem faithful_ofRatio (num : Nat) {den : Nat} (hden : 0 < den) :
    Faithful (ofRatio num den) ((num * unitsInOne : Nat) : Int) den where
  not_nan := (unsigned_ofRatio num den).not_nan
  le_rank := by
    intro r hr h
    rw [(unsigned_ofRatio num den).rank_eq, magnitude_ofRatio]
    rcases lt_or_ge r 0 with hneg | hpos
    · omega
    · obtain ⟨m, rfl⟩ := Int.eq_ofNat_of_zero_le hpos
      rw [unitsOfRank_natCast, ← Nat.cast_mul, Nat.cast_le] at h
      have := le_roundedMagnitude hden h
      omega
  rank_le := by
    intro r hr h
    rw [(unsigned_ofRatio num den).rank_eq, magnitude_ofRatio]
    rcases lt_or_ge r 0 with hneg | hpos
    · -- no quotient of natural numbers is below a negative one
      have hunits : unitsOfRank r * den < 0 :=
        Int.mul_neg_of_neg_of_pos (unitsOfRank_zero ▸ unitsOfRank_lt hneg)
          (Int.natCast_pos.mpr hden)
      exact absurd (Int.natCast_nonneg _) (not_le.mpr (h.trans_lt hunits))
    · obtain ⟨m, rfl⟩ := Int.eq_ofNat_of_zero_le hpos
      rw [unitsOfRank_natCast, ← Nat.cast_mul, Nat.cast_le] at h
      have := roundedMagnitude_le hden h
      omega

namespace Faithful

variable {x : Binary64} {num : Int} {den : Nat}

theorem negate (h : Faithful x num den) : Faithful x.negate (-num) den where
  not_nan := (isNaN_negate x).trans h.not_nan
  le_rank := by
    intro r hr hle
    have hrank : x.rank ≤ -r := by
      apply h.rank_le (by omega)
      rw [unitsOfRank_neg, Int.neg_mul]
      exact Int.le_neg_of_le_neg hle
    rw [rank_negate]
    omega
  rank_le := by
    intro r hr hle
    have hrank : -r ≤ x.rank := by
      apply h.le_rank (by omega)
      rw [unitsOfRank_neg, Int.neg_mul]
      exact Int.neg_le_of_neg_le hle
    rw [rank_negate]
    omega

/-- A quotient may be reduced. -/
theorem reduce {c : Nat} (h : Faithful x (num * c) (den * c)) :
    Faithful x num den where
  not_nan := h.not_nan
  le_rank := by
    intro r hr hle
    apply h.le_rank hr
    rw [Nat.cast_mul, ← Int.mul_assoc]
    exact Int.mul_le_mul_of_nonneg_right hle (Int.natCast_nonneg c)
  rank_le := by
    intro r hr hle
    apply h.rank_le hr
    rw [Nat.cast_mul, ← Int.mul_assoc]
    exact Int.mul_le_mul_of_nonneg_right hle (Int.natCast_nonneg c)

end Faithful

variable {x y : Binary64}

theorem faithful_zero (negative : Bool) : Faithful (withSign negative zero) 0 1 := by
  have hzero : Faithful zero 0 1 := by
    have hratio : ofRatio 0 1 = zero := by decide +kernel
    have h := faithful_ofRatio 0 Nat.one_pos
    rwa [hratio, Nat.zero_mul] at h
  cases negative with
  | false => exact hzero
  | true => exact hzero.negate

theorem faithful_addFinite (x y : Binary64) :
    Faithful (addFinite x y) (x.signedUnits + y.signedUnits) 1 := by
  unfold addFinite
  generalize x.signedUnits + y.signedUnits = sum
  have habs : Faithful (ofRatio sum.natAbs unitsInOne) sum.natAbs 1 := by
    apply Faithful.reduce (c := unitsInOne)
    rw [Nat.one_mul, ← Nat.cast_mul]
    exact faithful_ofRatio sum.natAbs unitsInOne_pos
  dsimp only
  split
  · next hzero =>
      rw [hzero]
      exact faithful_zero _
  · rcases Int.natAbs_eq sum with hsum | hsum
    · rw [decide_eq_false (by omega)]
      rwa [← hsum] at habs
    · rw [decide_eq_true (by omega), hsum, Int.natAbs_neg, Int.natAbs_natCast]
      exact habs.negate

theorem add_of_isFinite (hx : x.isFinite = true) (hy : y.isFinite = true) :
    x + y = addFinite x y := by
  show add x y = _
  simp only [add, isNaN_of_isFinite hx, isNaN_of_isFinite hy, hx, hy, Bool.or_self,
    Bool.false_eq_true, if_false, if_true]

theorem faithful_half (hx : x.isFinite = true) : Faithful (x / ofNat 2) x.signedUnits 2 := by
  have hunits : (ofNat 2).units = 2 * unitsInOne := units_ofNat (by decide)
  have hpos : 0 < (ofNat 2).units := units_pos_of_pos Nat.two_pos
  have habs : Faithful (ofRatio x.units (ofNat 2).units) x.units 2 := by
    apply Faithful.reduce (c := unitsInOne)
    rw [← Nat.cast_mul, ← hunits]
    exact faithful_ofRatio x.units hpos
  rw [div_of_isFinite hx (unsigned_ofNat 2) (isFinite_ofNat (by decide)) hpos]
  unfold signedUnits withSign
  cases x.isNegative with
  | false => exact habs
  | true => exact habs.negate

/-! ## Adding a zero -/

/-- **A number keeps its place in the order when a zero of either sign is added to it.** -/
theorem rank_add_of_zero {z : Binary64} (hx : x.isNaN = false) (hz : z.magnitude = 0) :
    (x + z).isNaN = false ∧ (x + z).rank = x.rank := by
  have hzfinite : z.isFinite = true := isFinite_iff_rank.mpr
    (by rw [rank_of_magnitude_eq_zero hz]; decide)
  cases hfinite : x.isFinite with
  | false =>
      -- an infinity absorbs what is added
      have hsum : x + z = x := by
        show add x z = x
        simp [add, hx, isNaN_of_isFinite hzfinite, hfinite, hzfinite]
      rw [hsum]
      exact ⟨hx, rfl⟩
  | true =>
      -- the exact sum is `x`, which is a number, so it is not rounded
      have hzero : z.signedUnits = 0 := by
        rw [signedUnits_eq, rank_of_magnitude_eq_zero hz, unitsOfRank_zero]
      have h := faithful_addFinite x z
      rw [hzero, Int.add_zero, signedUnits_eq] at h
      obtain ⟨hlow, hhigh⟩ := rank_bounds hx
      rw [add_of_isFinite hfinite hzfinite]
      refine ⟨h.not_nan, le_antisymm ?_ ?_⟩
      · exact h.rank_le hlow (by rw [Nat.cast_one, Int.mul_one])
      · exact h.le_rank hhigh (by rw [Nat.cast_one, Int.mul_one])

theorem rank_sub_of_zero {z : Binary64} (hx : x.isNaN = false) (hz : z.magnitude = 0) :
    (x - z).isNaN = false ∧ (x - z).rank = x.rank :=
  rank_add_of_zero hx ((magnitude_negate z).trans hz)

/-! ## The mean -/

/-- The computed mean of two numbers lies between them. -/
def MeanBetween (a b : Binary64) : Prop := a ≤ (a + b) / ofNat 2 ∧ (a + b) / ofNat 2 ≤ b

variable {a b : Binary64}

theorem isFinite_negate (x : Binary64) : x.negate.isFinite = x.isFinite := by
  rw [isFinite, isFinite, magnitude_negate]

namespace Faithful

variable {num : Int}

/-- A finite result is on the right side of the numbers past the infinities too. -/
theorem le_signedUnits (h : Faithful x num 1) (hfinite : x.isFinite = true) {r : Int}
    (hle : unitsOfRank r ≤ num) : unitsOfRank r ≤ x.signedUnits := by
  have hrank := (isFinite_iff_rank.mp hfinite).2
  rw [signedUnits_eq]
  apply unitsOfRank_le
  by_cases hr : r ≤ infinityMagnitude
  · exact h.le_rank hr (by rwa [Nat.cast_one, Int.mul_one])
  · -- the exact result is then past infinity, and `x` would be infinite
    exfalso
    have hinfinity : (infinityMagnitude : Int) ≤ x.rank := by
      apply h.le_rank (le_refl _)
      rw [Nat.cast_one, Int.mul_one]
      exact (unitsOfRank_le (by omega)).trans hle
    omega

theorem signedUnits_le (h : Faithful x num 1) (hfinite : x.isFinite = true) {r : Int}
    (hle : num ≤ unitsOfRank r) : x.signedUnits ≤ unitsOfRank r := by
  have hnegate := h.negate.le_signedUnits ((isFinite_negate x).trans hfinite) (r := -r)
    (by rw [unitsOfRank_neg]; omega)
  rw [signedUnits_eq, rank_negate, unitsOfRank_neg, unitsOfRank_neg, ← signedUnits_eq] at hnegate
  omega

end Faithful

/-- **The mean lies between** unless the sum overflows. -/
theorem mean_between (ha : a.isFinite = true) (hb : b.isFinite = true)
    (hsum : (a + b).isFinite = true) (hab : a ≤ b) : MeanBetween a b := by
  have hunits : a.signedUnits ≤ b.signedUnits := by
    rw [signedUnits_eq, signedUnits_eq]
    exact unitsOfRank_le hab.2.2
  have hround : Faithful (a + b) (a.signedUnits + b.signedUnits) 1 := by
    rw [add_of_isFinite ha hb]
    exact faithful_addFinite a b
  -- the doubles of both are numbers that the exact sum is not past, so rounding does not pass them
  have hlow : 2 * a.signedUnits ≤ (a + b).signedUnits := by
    obtain ⟨r, hr⟩ := exists_double_rank a.rank
    rw [signedUnits_eq a, ← hr]
    apply hround.le_signedUnits hsum
    rw [hr, ← signedUnits_eq]
    omega
  have hhigh : (a + b).signedUnits ≤ 2 * b.signedUnits := by
    obtain ⟨r, hr⟩ := exists_double_rank b.rank
    rw [signedUnits_eq b, ← hr]
    apply hround.signedUnits_le hsum
    rw [hr, ← signedUnits_eq]
    omega
  have hhalf := faithful_half hsum
  obtain ⟨hnana, hnanb, -⟩ := hab
  refine ⟨⟨hnana, hhalf.not_nan, ?_⟩, ⟨hhalf.not_nan, hnanb, ?_⟩⟩
  · apply hhalf.le_rank (rank_bounds hnana).2
    rw [← signedUnits_eq, Int.mul_comm]
    exact hlow
  · apply hhalf.rank_le (rank_bounds hnanb).1
    rw [← signedUnits_eq, Int.mul_comm]
    exact hhigh

/-! ## Moderate numbers -/

theorem abs_signedUnits_le {m : Nat} (h : x.magnitude ≤ m) :
    -(unitsOfMagnitude m : Int) ≤ x.signedUnits ∧ x.signedUnits ≤ unitsOfMagnitude m := by
  have hunits : x.units ≤ unitsOfMagnitude m := unitsOfMagnitude_strictMono.monotone h
  unfold signedUnits
  split <;> omega

theorem Moderate.isFinite_add (ha : a.Moderate) (hb : b.Moderate) : (a + b).isFinite = true := by
  obtain ⟨m, hm, hdouble⟩ := exists_double_magnitude (max a.magnitude b.magnitude)
  have hlt : m < infinityMagnitude := by
    unfold Moderate at ha hb
    omega
  obtain ⟨halow, hahigh⟩ := abs_signedUnits_le (Nat.le_max_left a.magnitude b.magnitude)
  obtain ⟨hblow, hbhigh⟩ := abs_signedUnits_le (Nat.le_max_right a.magnitude b.magnitude)
  have hround := faithful_addFinite a b
  rw [add_of_isFinite ha.isFinite hb.isFinite, isFinite_iff_rank]
  have hlow : -(m : Int) ≤ (addFinite a b).rank := by
    apply hround.le_rank (by omega)
    rw [unitsOfRank_neg, unitsOfRank_natCast, hdouble]
    omega
  have hhigh : (addFinite a b).rank ≤ m := by
    apply hround.rank_le (by omega)
    rw [unitsOfRank_natCast, hdouble]
    omega
  omega

theorem mean_between_of_moderate (ha : a.Moderate) (hb : b.Moderate) (hab : a ≤ b) :
    MeanBetween a b :=
  mean_between ha.isFinite hb.isFinite (ha.isFinite_add hb) hab

/-! ## Quotients of natural numbers -/

/-- Scaling both sides of a quotient does not change what it is nearest to. -/
theorem divToEven_mul_right (num den : Nat) {c : Nat} (hc : 0 < c) :
    divToEven (num * c) (den * c) = divToEven num den := by
  have hassoc : 2 * (num % den * c) = 2 * (num % den) * c := (Nat.mul_assoc _ _ _).symm
  have hbelow : 2 * (num % den) * c < den * c ↔ 2 * (num % den) < den := Nat.mul_lt_mul_right hc
  have habove : den * c < 2 * (num % den) * c ↔ den < 2 * (num % den) := Nat.mul_lt_mul_right hc
  unfold divToEven
  dsimp only
  rw [Nat.mul_div_mul_right _ _ hc, Nat.mul_mod_mul_right]
  simp only [hassoc, hbelow, habove]

/-- A ratio is rounded the same in whatever terms it is given. -/
theorem ofRatio_mul_right (num den : Nat) {c : Nat} (hc : 0 < c) :
    ofRatio (num * c) (den * c) = ofRatio num den := by
  rw [ofRatio_eq, ofRatio_eq, roundedMagnitude, roundedMagnitude, Nat.mul_right_comm num,
    Nat.mul_div_mul_right _ _ hc, Nat.mul_right_comm den, divToEven_mul_right _ _ hc]

/-- A quotient of natural numbers is rounded from the units of both. -/
theorem ofNat_div_ofNat {m n : Nat} (hm : m < 2 ^ 128) (hpos : 0 < n) (hn : n < 2 ^ 128) :
    ofNat m / ofNat n = ofRatio (ofNat m).units (ofNat n).units := by
  rw [div_of_isFinite (isFinite_ofNat hm) (unsigned_ofNat n) (isFinite_ofNat hn)
    (units_pos_of_pos hpos), (unsigned_ofNat m).not_negative]
  rfl

/-- Quotients of natural numbers are moderate with their dividends. -/
theorem moderate_ofNat_div_ofNat {m n : Nat} (hm : m < 2 ^ 128) (hpos : 0 < n)
    (hn : n < 2 ^ 128) : (ofNat m / ofNat n).Moderate := by
  have hle : (ofRatio (ofNat m).units (ofNat n).units).magnitude ≤ (ofNat m).magnitude := by
    rw [magnitude_ofRatio]
    refine (Nat.min_le_left _ _).trans (roundedMagnitude_le (units_pos_of_pos hpos) ?_)
    exact Nat.mul_le_mul_left _ (unitsInOne_le_units_ofNat hpos)
  rw [ofNat_div_ofNat hm hpos hn]
  exact lt_of_le_of_lt (Nat.add_le_add_right hle _) (moderate_ofNat hm)

/-- **A quotient of natural numbers up to `2 ^ 53` is rounded once.** -/
theorem ofNat_div_ofNat_of_le {m n : Nat} (hm : m ≤ 2 ^ 53) (hpos : 0 < n) (hn : n ≤ 2 ^ 53) :
    ofNat m / ofNat n = ofRatio m n := by
  rw [ofNat_div_ofNat (by omega) hpos (by omega), units_ofNat hm, units_ofNat hn,
    ofRatio_mul_right _ _ unitsInOne_pos]

/-- A quotient of natural numbers in order is not above one. -/
theorem ofNat_div_ofNat_le_one {m n : Nat} (h : m ≤ n) (hpos : 0 < n) (hn : n < 2 ^ 128) :
    ofNat m / ofNat n ≤ ofNat 1 := by
  have hone : unitsOfMagnitude (ofNat 1).magnitude = unitsInOne :=
    (units_ofNat (by decide)).trans (Nat.one_mul _)
  rw [ofNat_div_ofNat (h.trans_lt hn) hpos hn, (unsigned_ofRatio _ _).le_iff (unsigned_ofNat 1),
    magnitude_ofRatio]
  refine (Nat.min_le_left _ _).trans (roundedMagnitude_le (units_pos_of_pos hpos) ?_)
  rw [hone, Nat.mul_comm]
  exact Nat.mul_le_mul_left _ (units_ofNat_le_units_ofNat h)

/-- Rounding makes no quotient of natural numbers zero. -/
theorem ofNat_div_ofNat_le_zero_iff {m n : Nat} (hm : m < 2 ^ 128) (hpos : 0 < n)
    (hn : n < 2 ^ 128) : ofNat m / ofNat n ≤ zero ↔ m = 0 := by
  constructor
  · intro hle
    by_contra hne
    exact not_le_of_lt
      (zero_lt_ofNat_div_ofNat (Nat.pos_of_ne_zero hne) hpos (isFinite_ofNat hn)) hle
  · rintro rfl
    rw [ofNat_div_ofNat hm hpos hn, (unsigned_ofRatio _ _).le_iff unsigned_zero, magnitude_ofRatio]
    refine (Nat.min_le_left _ _).trans (roundedMagnitude_le (units_pos_of_pos hpos) ?_)
    rw [units_ofNat (Nat.zero_le _), Nat.zero_mul, Nat.zero_mul]
    exact Nat.zero_le _

/-- A quotient of natural numbers is not below zero. -/
theorem zero_le_ofNat_div_ofNat {m n : Nat} (hm : m < 2 ^ 128) (hpos : 0 < n)
    (hn : n < 2 ^ 128) : zero ≤ ofNat m / ofNat n := by
  rw [ofNat_div_ofNat hm hpos hn, unsigned_zero.le_iff (unsigned_ofRatio _ _)]
  exact Nat.zero_le _

end Winners.Binary64

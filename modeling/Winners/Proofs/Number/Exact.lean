import Winners.Number.Arithmetic
import Mathlib.Order.Monotone.Basic
import Mathlib.Tactic.Ring

set_option autoImplicit false

/-! # Exact conversions and the order

The order of the numbers without sign is that of their units (`unitsOfMagnitude_strictMono`).
A ratio is rounded to one of the two neighbours of its quotient, so a ratio of at least one unit
is positive, and a natural number up to `2 ^ 53` is not rounded at all (`units_ofNat`). Hence
naturals up to `2 ^ 53` are converted in order (`ofNat_le_ofNat_iff`). Larger ones may become equal,
but their order is not turned around (`ofNat_le_ofNat`). The conversions of positive ones have
positive quotients (`zero_lt_ofNat_div_ofNat`).
-/

namespace Winners.Binary64

/-! ## Units -/

theorem unitsOfMagnitude_of_lt {m : Nat} (h : m < 2 ^ 52) : unitsOfMagnitude m = m := by
  have hexponent : m / 0x10000000000000 = 0 := Nat.div_eq_of_lt h
  simp only [unitsOfMagnitude, hexponent, if_true]
  exact Nat.mod_eq_of_lt h

/-- In the stretch with spacing `2 ^ k` the units are the multiples of `2 ^ k`. Both ends belong to
it, the upper one being the lower one of the next stretch. -/
theorem unitsOfMagnitude_stretch (k : Nat) {d : Nat} (hlow : 2 ^ 52 ≤ d) (hhigh : d ≤ 2 ^ 53) :
    unitsOfMagnitude (k * 2 ^ 52 + d) = d * 2 ^ k := by
  rcases Nat.lt_or_eq_of_le hhigh with hlt | rfl
  · have hexponent : (k * 2 ^ 52 + d) / 0x10000000000000 = k + 1 := by omega
    have hfraction : (k * 2 ^ 52 + d) % 0x10000000000000 = d - 2 ^ 52 := by omega
    simp only [unitsOfMagnitude, hexponent, hfraction, Nat.succ_ne_zero, if_false]
    rw [Nat.shiftLeft_eq, Nat.add_sub_cancel, show 0x10000000000000 + (d - 2 ^ 52) = d by omega]
  · have hexponent : (k * 2 ^ 52 + 2 ^ 53) / 0x10000000000000 = k + 2 := by omega
    have hfraction : (k * 2 ^ 52 + 2 ^ 53) % 0x10000000000000 = 0 := by omega
    simp only [unitsOfMagnitude, hexponent, hfraction, Nat.succ_ne_zero, if_false]
    rw [Nat.shiftLeft_eq, show k + 2 - 1 = k + 1 by omega, Nat.pow_succ]
    ring

/-- Up to the end of the first stretch neighbours are one unit apart. -/
theorem unitsOfMagnitude_of_le {m : Nat} (h : m ≤ 2 ^ 53) : unitsOfMagnitude m = m := by
  rcases Nat.lt_or_ge m (2 ^ 52) with hlow | hhigh
  · exact unitsOfMagnitude_of_lt hlow
  · have hstretch := unitsOfMagnitude_stretch 0 hhigh h
    rwa [Nat.zero_mul, Nat.zero_add, Nat.pow_zero, Nat.mul_one] at hstretch

/-- Every magnitude from `2 ^ 52` on lies in a stretch. -/
theorem exists_stretch {m : Nat} (h : 2 ^ 52 ≤ m) :
    ∃ k d, m = k * 2 ^ 52 + d ∧ 2 ^ 52 ≤ d ∧ d < 2 ^ 53 :=
  ⟨m / 2 ^ 52 - 1, m % 2 ^ 52 + 2 ^ 52, by omega, by omega, by omega⟩

/-- **Greater magnitudes have more units.** -/
theorem unitsOfMagnitude_strictMono : StrictMono unitsOfMagnitude := by
  apply strictMono_nat_of_lt_succ
  intro m
  rcases Nat.lt_or_ge m (2 ^ 52) with hlow | hhigh
  · rw [unitsOfMagnitude_of_le (by omega), unitsOfMagnitude_of_le (by omega)]
    exact Nat.lt_succ_self m
  · obtain ⟨k, d, rfl, hlow, hhigh⟩ := exists_stretch hhigh
    rw [Nat.add_assoc, unitsOfMagnitude_stretch k hlow (by omega),
      unitsOfMagnitude_stretch k (by omega) (by omega)]
    exact Nat.mul_lt_mul_of_pos_right (Nat.lt_succ_self d) (Nat.two_pow_pos k)

/-- One has this power of two units. -/
@[irreducible] def unitExponent : Nat := 1074

theorem unitsInOne_eq : unitsInOne = 2 ^ unitExponent := by
  have hexponent : 1074 = unitExponent := by
    unfold unitExponent
    rfl
  rw [unitsInOne, hexponent]
  exact Nat.one_shiftLeft unitExponent

theorem le_unitExponent : 52 ≤ unitExponent := by
  unfold unitExponent
  omega

theorem unitsInOne_pos : 0 < unitsInOne := by
  rw [unitsInOne_eq]
  exact Nat.two_pow_pos unitExponent

/-! ## Numbers without sign -/

/-- A number, not a NaN, whose sign bit is not set. -/
structure Unsigned (x : Binary64) : Prop where
  not_negative : x.isNegative = false
  not_nan : x.isNaN = false

theorem magnitude_ofMagnitude {m : Nat} (h : m ≤ infinityMagnitude) :
    (ofMagnitude m).magnitude = m := by
  unfold infinityMagnitude at h
  have hbits : (ofMagnitude m).bits.toNat = m :=
    (UInt64.toNat_ofNat).trans (Nat.mod_eq_of_lt (by omega))
  rw [magnitude, hbits]
  exact Nat.mod_eq_of_lt (by omega)

theorem unsigned_ofMagnitude {m : Nat} (h : m ≤ infinityMagnitude) :
    (ofMagnitude m).Unsigned where
  not_negative := by
    unfold infinityMagnitude at h
    have hbits : (ofMagnitude m).bits.toNat = m :=
      (UInt64.toNat_ofNat).trans (Nat.mod_eq_of_lt (by omega))
    rw [isNegative, hbits]
    exact decide_eq_false (by omega)
  not_nan := by
    rw [isNaN, magnitude_ofMagnitude h]
    exact decide_eq_false (Nat.not_lt.mpr h)

theorem unsigned_zero : zero.Unsigned := unsigned_ofMagnitude (Nat.zero_le _)

namespace Unsigned

variable {x y : Binary64}

theorem rank_eq (hx : x.Unsigned) : x.rank = x.magnitude := by
  rw [rank, hx.not_negative]
  rfl

theorem le_iff (hx : x.Unsigned) (hy : y.Unsigned) : x ≤ y ↔ x.magnitude ≤ y.magnitude := by
  simp only [le_def, hx.not_nan, hy.not_nan, true_and, hx.rank_eq, hy.rank_eq]
  exact Int.ofNat_le

theorem le_iff_units (hx : x.Unsigned) (hy : y.Unsigned) : x ≤ y ↔ x.units ≤ y.units := by
  rw [hx.le_iff hy]
  exact unitsOfMagnitude_strictMono.le_iff_le.symm

theorem zero_lt_iff (hx : x.Unsigned) : zero < x ↔ 0 < x.magnitude := by
  simp only [lt_def, hx.not_nan, unsigned_zero.not_nan, true_and, hx.rank_eq,
    unsigned_zero.rank_eq]
  exact Int.ofNat_lt

end Unsigned

theorem isNaN_of_isFinite {x : Binary64} (h : x.isFinite = true) : x.isNaN = false := by
  have hmagnitude : x.magnitude < infinityMagnitude := of_decide_eq_true h
  exact decide_eq_false (Nat.not_lt.mpr hmagnitude.le)

theorem isFinite_iff_rank {x : Binary64} :
    x.isFinite = true ↔ -(infinityMagnitude : Int) < x.rank ∧ x.rank < infinityMagnitude := by
  rw [isFinite, decide_eq_true_eq, rank]
  split <;> omega

theorem not_le_of_lt {x y : Binary64} (h : x < y) : ¬y ≤ x := fun hle =>
  absurd h.2.2 (not_lt.mpr hle.2.2)

/-- What is not between two numbers is a NaN, or below the one or above the other. -/
theorem not_between_iff {a x b : Binary64} (ha : a.isNaN = false) (hb : b.isNaN = false) :
    ¬(a ≤ x ∧ x ≤ b) ↔ x.isNaN = true ∨ x < a ∨ b < x := by
  simp only [le_def, lt_def, ha, hb, true_and]
  cases x.isNaN with
  | true => simp
  | false =>
      simp only [Bool.false_eq_true, true_and, false_or]
      omega

theorem le_trans {x y z : Binary64} (hxy : x ≤ y) (hyz : y ≤ z) : x ≤ z :=
  ⟨hxy.1, hyz.2.1, hxy.2.2.trans hyz.2.2⟩

/-! ## Rounding -/

/-- Rounding goes to one of the two neighbours of the quotient. -/
theorem divToEven_bounds (num den : Nat) :
    num / den ≤ divToEven num den ∧ divToEven num den ≤ num / den + 1 := by
  unfold divToEven
  dsimp only
  split
  · omega
  · split
    · omega
    · split <;> omega

/-- A whole quotient is not rounded. -/
theorem divToEven_mul (q : Nat) {den : Nat} (h : 0 < den) : divToEven (q * den) den = q := by
  unfold divToEven
  dsimp only
  rw [Nat.mul_mod_left, Nat.mul_div_cancel q h, if_pos (by omega)]

/-- The spacing of the numbers about `w` units, as a power of two. -/
def spacing (w : Nat) : Nat := w.log2 - 52

/-- From `2 ^ 52` units on, a number is a multiple of the spacing by a factor of 53 bits. -/
theorem div_spacing_bounds {w : Nat} (h : 2 ^ 52 ≤ w) :
    2 ^ 52 ≤ w / 2 ^ spacing w ∧ w / 2 ^ spacing w < 2 ^ 53 := by
  have hw : w ≠ 0 := by omega
  have hlog : 52 ≤ w.log2 := (Nat.le_log2 hw).mpr h
  have hpos : 0 < 2 ^ spacing w := Nat.two_pow_pos _
  constructor
  · rw [Nat.le_div_iff_mul_le hpos, ← Nat.pow_add, spacing, Nat.add_sub_cancel' hlog]
    exact Nat.log2_self_le hw
  · rw [Nat.div_lt_iff_lt_mul hpos, ← Nat.pow_add, spacing,
      show 53 + (w.log2 - 52) = w.log2 + 1 by omega]
    exact Nat.lt_log2_self

/-- The magnitude of a ratio before it is cut off at infinity. -/
def roundedMagnitude (num den : Nat) : Nat :=
  spacing (num * unitsInOne / den) * 2 ^ 52 +
    divToEven (num * unitsInOne) (den * 2 ^ spacing (num * unitsInOne / den))

theorem ofRatio_eq (num den : Nat) :
    ofRatio num den = ofMagnitude (min (roundedMagnitude num den) infinityMagnitude) := by
  simp only [ofRatio, roundedMagnitude, spacing, Nat.shiftLeft_eq]
  rfl

theorem unsigned_ofRatio (num den : Nat) : (ofRatio num den).Unsigned := by
  rw [ofRatio_eq]
  exact unsigned_ofMagnitude (Nat.min_le_right _ _)

theorem magnitude_ofRatio (num den : Nat) :
    (ofRatio num den).magnitude = min (roundedMagnitude num den) infinityMagnitude := by
  rw [ofRatio_eq]
  exact magnitude_ofMagnitude (Nat.min_le_right _ _)

/-- **A ratio of at least one unit is positive.** -/
theorem ofRatio_pos {num den : Nat} (hden : 0 < den) (h : den ≤ num * unitsInOne) :
    zero < ofRatio num den := by
  have hquotient : 0 < num * unitsInOne / den := Nat.div_pos h hden
  rw [(unsigned_ofRatio num den).zero_lt_iff, magnitude_ofRatio]
  refine Nat.lt_min.mpr ⟨?_, by decide⟩
  unfold roundedMagnitude
  rw [Nat.add_pos_iff_pos_or_pos]
  -- past the first stretch the stretch alone makes the magnitude positive
  by_cases hspacing : spacing (num * unitsInOne / den) = 0
  · right
    rw [hspacing, Nat.pow_zero, Nat.mul_one]
    exact Nat.lt_of_lt_of_le hquotient (divToEven_bounds _ _).1
  · left
    omega

/-! ## Natural numbers -/

theorem log2_mul_two_pow {n : Nat} (h : 0 < n) (e : Nat) : (n * 2 ^ e).log2 = n.log2 + e := by
  have hpos : 0 < 2 ^ e := Nat.two_pow_pos e
  rw [Nat.log2_eq_iff (Nat.mul_pos h hpos).ne']
  constructor
  · rw [Nat.pow_add]
    exact Nat.mul_le_mul_right _ (Nat.log2_self_le h.ne')
  · rw [Nat.add_right_comm, Nat.pow_add]
    exact Nat.mul_lt_mul_of_pos_right Nat.lt_log2_self hpos

theorem spacing_mul_unitsInOne {n : Nat} (h : 0 < n) :
    spacing (n * unitsInOne) = n.log2 + (unitExponent - 52) := by
  rw [spacing, unitsInOne_eq, log2_mul_two_pow h]
  exact Nat.add_sub_assoc le_unitExponent _

/-- A positive natural number has at least `2 ^ 52` units. -/
theorem le_mul_unitsInOne {n : Nat} (h : 0 < n) : 2 ^ 52 ≤ n * unitsInOne := by
  rw [unitsInOne_eq]
  exact (Nat.pow_le_pow_right Nat.two_pos le_unitExponent).trans (Nat.le_mul_of_pos_left _ h)

/-- The magnitude of a positive natural number is that of a factor of 53 bits in its stretch, or the
next power of two. -/
theorem exists_roundedMagnitude {n : Nat} (h : 0 < n) :
    ∃ d, 2 ^ 52 ≤ d ∧ d ≤ 2 ^ 53 ∧
      roundedMagnitude n 1 = (n.log2 + (unitExponent - 52)) * 2 ^ 52 + d := by
  obtain ⟨hlow, hhigh⟩ := div_spacing_bounds (le_mul_unitsInOne h)
  obtain ⟨hdown, hup⟩ := divToEven_bounds (n * unitsInOne) (2 ^ spacing (n * unitsInOne))
  refine ⟨divToEven (n * unitsInOne) (2 ^ spacing (n * unitsInOne)), hlow.trans hdown,
    hup.trans hhigh, ?_⟩
  rw [roundedMagnitude, Nat.div_one, Nat.one_mul, spacing_mul_unitsInOne h]

/-- Positive natural numbers convert to at least one. -/
theorem unitsInOne_le_units_ofNat {n : Nat} (h : 0 < n) : unitsInOne ≤ (ofNat n).units := by
  obtain ⟨d, hlow, -, hmagnitude⟩ := exists_roundedMagnitude h
  have hone : unitsInOne = unitsOfMagnitude ((unitExponent - 52) * 2 ^ 52 + 2 ^ 52) := by
    rw [unitsOfMagnitude_stretch _ (Nat.le_refl _) (by omega), unitsInOne_eq, ← Nat.pow_add,
      Nat.add_sub_cancel' le_unitExponent]
  rw [hone, units, unitsOfMagnitude_strictMono.le_iff_le, ofNat, magnitude_ofRatio, hmagnitude]
  clear hone hmagnitude
  refine Nat.le_min.mpr ⟨?_, ?_⟩
  · generalize unitExponent - 52 = e
    omega
  · unfold unitExponent infinityMagnitude
    omega

/-- Less than half of what is finite, so that two such numbers do not overflow together. -/
def Moderate (x : Binary64) : Prop := x.magnitude + 2 ^ 52 < infinityMagnitude

theorem Moderate.isFinite {x : Binary64} (h : x.Moderate) : x.isFinite = true :=
  decide_eq_true (lt_of_le_of_lt (Nat.le_add_right _ _) h)

theorem moderate_ofNat {n : Nat} (h : n < 2 ^ 128) : (ofNat n).Moderate := by
  rcases Nat.eq_zero_or_pos n with rfl | hpos
  · unfold Moderate
    decide +kernel
  · obtain ⟨d, -, hhigh, hmagnitude⟩ := exists_roundedMagnitude hpos
    have hlog : n.log2 < 128 := (Nat.log2_lt hpos.ne').mpr h
    have hle : (ofNat n).magnitude ≤ roundedMagnitude n 1 := by
      rw [ofNat, magnitude_ofRatio]
      exact Nat.min_le_left _ _
    rw [hmagnitude] at hle
    unfold Moderate
    unfold unitExponent at hle
    unfold infinityMagnitude
    omega

theorem isFinite_ofNat {n : Nat} (h : n < 2 ^ 128) : (ofNat n).isFinite = true :=
  (moderate_ofNat h).isFinite

/-- A natural number up to `2 ^ 53` is a multiple of the spacing about it. -/
theorem exists_eq_mul_spacing {n : Nat} (hpos : 0 < n) (h : n ≤ 2 ^ 53) :
    ∃ q, n * unitsInOne = q * 2 ^ spacing (n * unitsInOne) := by
  rw [spacing_mul_unitsInOne hpos, unitsInOne_eq]
  have hle := le_unitExponent
  -- at `2 ^ 53` itself neighbours are already two apart
  by_cases htop : n < 2 ^ 53
  · have hlog : n.log2 < 53 := (Nat.log2_lt hpos.ne').mpr htop
    refine ⟨n * 2 ^ (52 - n.log2), ?_⟩
    rw [Nat.mul_assoc, ← Nat.pow_add]
    congr 2
    omega
  · obtain rfl : 2 ^ 53 = n := by omega
    refine ⟨2 ^ 52, ?_⟩
    rw [Nat.log2_two_pow, ← Nat.pow_add, ← Nat.pow_add]
    congr 1
    omega

/-- **Natural numbers up to `2 ^ 53` are not rounded.** -/
theorem units_ofNat {n : Nat} (h : n ≤ 2 ^ 53) : (ofNat n).units = n * unitsInOne := by
  rcases Nat.eq_zero_or_pos n with rfl | hpos
  · decide +kernel
  · have hlog : n.log2 ≤ 53 := by
      have : n.log2 < 54 := (Nat.log2_lt hpos.ne').mpr (by omega)
      omega
    obtain ⟨hlow, hhigh⟩ := div_spacing_bounds (le_mul_unitsInOne hpos)
    obtain ⟨q, hq⟩ := exists_eq_mul_spacing hpos h
    have hspacing := spacing_mul_unitsInOne hpos
    have hmagnitude : (ofNat n).magnitude = min (roundedMagnitude n 1) infinityMagnitude :=
      magnitude_ofRatio n 1
    rw [roundedMagnitude, Nat.div_one, Nat.one_mul] at hmagnitude
    -- the spacing is kept apart from the units that are about to be rewritten
    generalize spacing (n * unitsInOne) = s at *
    rw [hq, Nat.mul_div_cancel q (Nat.two_pow_pos s)] at hlow hhigh
    rw [hq, divToEven_mul q (Nat.two_pow_pos s), Nat.min_eq_left] at hmagnitude
    · rw [units, hmagnitude, unitsOfMagnitude_stretch s hlow hhigh.le, hq]
    · rw [hspacing]
      unfold unitExponent infinityMagnitude
      omega

theorem unsigned_ofNat (n : Nat) : (ofNat n).Unsigned := unsigned_ofRatio n 1

/-- What is no probability. -/
theorem improbable_iff {p : Binary64} :
    ¬(zero ≤ p ∧ p ≤ ofNat 1) ↔ p.isNaN = true ∨ p < zero ∨ ofNat 1 < p :=
  not_between_iff unsigned_zero.not_nan (unsigned_ofNat 1).not_nan

theorem magnitude_negate (x : Binary64) : x.negate.magnitude = x.magnitude := by
  show (x.bits ^^^ 0x8000000000000000).toNat % 2 ^ 63 = x.bits.toNat % 2 ^ 63
  rw [UInt64.toNat_xor, Nat.xor_mod_two_pow]
  exact Nat.xor_zero _

theorem isNaN_negate (x : Binary64) : x.negate.isNaN = x.isNaN := by
  rw [isNaN, isNaN, magnitude_negate]

/-- No integer converts to a NaN, however large. -/
theorem isNaN_ofInt (i : Int) : (ofInt i).isNaN = false := by
  cases i with
  | ofNat n => exact (unsigned_ofNat n).not_nan
  | negSucc n => exact (isNaN_negate _).trans (unsigned_ofNat (n + 1)).not_nan

/-- Conversion keeps the order of natural numbers up to `2 ^ 53`. -/
theorem ofNat_le_ofNat_iff {a b : Nat} (ha : a ≤ 2 ^ 53) (hb : b ≤ 2 ^ 53) :
    ofNat a ≤ ofNat b ↔ a ≤ b := by
  rw [(unsigned_ofNat a).le_iff_units (unsigned_ofNat b), units_ofNat ha, units_ofNat hb]
  exact Nat.mul_le_mul_right_iff unitsInOne_pos

/-- The nearest natural number grows with the numerator. -/
theorem divToEven_le_divToEven {num num' den : Nat} (h : num ≤ num') :
    divToEven num den ≤ divToEven num' den := by
  have hquotient : num / den ≤ num' / den := Nat.div_le_div_right h
  rcases Nat.lt_or_eq_of_le hquotient with hlt | heq
  · exact (divToEven_bounds num den).2.trans (Nat.le_trans hlt (divToEven_bounds num' den).1)
  · -- with equal quotients the remainders decide
    have hnum := Nat.div_add_mod num den
    have hnum' := Nat.div_add_mod num' den
    unfold divToEven
    dsimp only
    rw [heq] at hnum ⊢
    generalize num' / den = q at *
    have hremainder : num % den ≤ num' % den := by omega
    split_ifs <;> omega

theorem log2_le_log2 {a b : Nat} (hpos : 0 < a) (h : a ≤ b) : a.log2 ≤ b.log2 :=
  (Nat.le_log2 (hpos.trans_le h).ne').mpr ((Nat.log2_self_le hpos.ne').trans h)

theorem roundedMagnitude_le_roundedMagnitude {a b : Nat} (hpos : 0 < a) (h : a ≤ b) :
    roundedMagnitude a 1 ≤ roundedMagnitude b 1 := by
  have hbpos := hpos.trans_le h
  rcases Nat.lt_or_eq_of_le (log2_le_log2 hpos h) with hlt | heq
  · -- in a lower stretch rounding ends with the stretch
    obtain ⟨d, -, hd, hlow⟩ := exists_roundedMagnitude hpos
    obtain ⟨d', hd', -, hhigh⟩ := exists_roundedMagnitude hbpos
    rw [hlow, hhigh]
    generalize unitExponent - 52 = e
    omega
  · rw [roundedMagnitude, roundedMagnitude, Nat.div_one, Nat.div_one, spacing_mul_unitsInOne hpos,
      spacing_mul_unitsInOne hbpos, heq]
    exact Nat.add_le_add_left (divToEven_le_divToEven (Nat.mul_le_mul_right _ h)) _

/-- **Conversion does not turn the order of natural numbers around**, however large they are. -/
theorem ofNat_le_ofNat {a b : Nat} (hpos : 0 < a) (h : a ≤ b) : ofNat a ≤ ofNat b := by
  have hmagnitude := roundedMagnitude_le_roundedMagnitude hpos h
  rw [(unsigned_ofNat a).le_iff (unsigned_ofNat b), ofNat, ofNat, magnitude_ofRatio,
    magnitude_ofRatio]
  omega

theorem units_ofNat_le_units_ofNat {a b : Nat} (h : a ≤ b) : (ofNat a).units ≤ (ofNat b).units := by
  rcases Nat.eq_zero_or_pos a with rfl | hpos
  · rw [units_ofNat (Nat.zero_le _), Nat.zero_mul]
    exact Nat.zero_le _
  · exact ((unsigned_ofNat a).le_iff_units (unsigned_ofNat b)).mp (ofNat_le_ofNat hpos h)

theorem units_pos_of_pos {n : Nat} (h : 0 < n) : 0 < (ofNat n).units :=
  unitsInOne_pos.trans_le (unitsInOne_le_units_ofNat h)

theorem zero_lt_ofNat {n : Nat} (h : 0 < n) : zero < ofNat n := by
  rw [(unsigned_ofNat n).zero_lt_iff, ← unitsOfMagnitude_strictMono.lt_iff_lt]
  exact units_pos_of_pos h

/-! ## Quotients -/

/-- Finite numbers have fewer units than one has, squared. -/
theorem units_lt_of_isFinite {x : Binary64} (h : x.isFinite = true) :
    x.units < unitsInOne * unitsInOne := by
  -- the exponent gets a name, for a power this large is not to be computed
  obtain ⟨k, hk⟩ : ∃ k, k = 2046 := ⟨2046, rfl⟩
  have hmagnitude : infinityMagnitude = k * 2 ^ 52 + 2 ^ 52 := by
    rw [hk]
    rfl
  calc x.units < unitsOfMagnitude infinityMagnitude :=
        unitsOfMagnitude_strictMono (of_decide_eq_true h)
    _ = 2 ^ (52 + k) := by
        rw [hmagnitude, unitsOfMagnitude_stretch k (Nat.le_refl _) (by omega), Nat.pow_add]
    _ ≤ 2 ^ (unitExponent + unitExponent) := by
        apply Nat.pow_le_pow_right Nat.two_pos
        unfold unitExponent
        omega
    _ = unitsInOne * unitsInOne := by rw [unitsInOne_eq, Nat.pow_add]

theorem div_of_isFinite {x y : Binary64} (hx : x.isFinite = true) (hy : y.Unsigned)
    (hfinite : y.isFinite = true) (hpos : 0 < y.units) :
    x / y = withSign x.isNegative (ofRatio x.units y.units) := by
  show div x y = _
  simp only [div, isNaN_of_isFinite hx, hy.not_nan, hy.not_negative, hx, hfinite, hpos.ne',
    Bool.or_self, Bool.bne_false, Bool.not_true, Bool.false_eq_true, ne_eq, not_false_eq_true,
    if_true, if_false]

theorem div_of_not_isFinite {x y : Binary64} (hx : x.Unsigned) (hy : y.Unsigned)
    (hinfinite : x.isFinite = false) (hfinite : y.isFinite = true) : x / y = infinity := by
  show div x y = _
  simp [div, hx.not_nan, hy.not_nan, hx.not_negative, hy.not_negative, hinfinite, hfinite, withSign]

/-- **Positive integers have a positive quotient**, as long as the divisor is not rounded to
infinity. -/
theorem zero_lt_ofNat_div_ofNat {a b : Nat} (ha : 0 < a) (hb : 0 < b)
    (hfinite : (ofNat b).isFinite = true) : zero < ofNat a / ofNat b := by
  have hdivisor := units_pos_of_pos hb
  cases ha' : (ofNat a).isFinite with
  | false =>
      -- the dividend has been rounded to infinity
      rw [div_of_not_isFinite (unsigned_ofNat a) (unsigned_ofNat b) ha' hfinite]
      decide
  | true =>
      rw [div_of_isFinite ha' (unsigned_ofNat b) hfinite hdivisor, (unsigned_ofNat a).not_negative]
      apply ofRatio_pos hdivisor
      calc (ofNat b).units ≤ unitsInOne * unitsInOne := (units_lt_of_isFinite hfinite).le
        _ ≤ (ofNat a).units * unitsInOne :=
          Nat.mul_le_mul_right _ (unitsInOne_le_units_ofNat ha)

end Winners.Binary64

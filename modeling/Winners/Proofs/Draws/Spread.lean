import Winners.Draws.Generator
import Mathlib.Data.FinEnum
import Mathlib.Data.Nat.Bitwise
import Mathlib.Data.Nat.ModEq
import Mathlib.Data.Nat.Prime.Basic

set_option autoImplicit false

/-! # Seeds are not mixed up

A SplitMix64 step adds a constant to a word and then scrambles it: the word is laid over itself,
shifted to the right (`xorShift`), three times, and multiplied in between. A shift by at least one
place can be told from the word laid over itself, since the highest bits stay as they are
(`xorShift_injective`), and a multiplication by an odd number can be undone
(`mul_right_injective_of_odd`). So `splitMix` only rearranges the words (`splitMix_bijective`), and
streams that start from different seeds are different (`Draws.ofSeed_injective`). The constants
matter in no other way than this.
-/

namespace Winners

/-! ## The parts of a step -/

/-- A word laid over itself, shifted to the right. -/
def xorShift (places : UInt64) (x : UInt64) : UInt64 := x ^^^ (x >>> places)

/-- The difference of two numbers would be its own shift, but a shift makes a number smaller. -/
theorem eq_of_xor_shiftRight {a b places : Nat} (hplaces : 0 < places)
    (h : a ^^^ a >>> places = b ^^^ b >>> places) : a = b := by
  have hzero : (a ^^^ b) ^^^ (a ^^^ b) >>> places = 0 := by
    calc (a ^^^ b) ^^^ (a ^^^ b) >>> places
        = (a ^^^ a >>> places) ^^^ (b ^^^ b >>> places) := by
          rw [Nat.shiftRight_xor_distrib]
          ac_rfl
      _ = 0 := by rw [h, Nat.xor_self]
  have hdifference : a ^^^ b = (a ^^^ b) >>> places := Nat.xor_eq_zero_iff.mp hzero
  apply Nat.xor_eq_zero_iff.mp
  by_contra hne
  have hsmaller : (a ^^^ b) >>> places < a ^^^ b := by
    rw [Nat.shiftRight_eq_div_pow]
    exact Nat.div_lt_self (Nat.pos_of_ne_zero hne) (Nat.one_lt_two_pow hplaces.ne')
  exact hsmaller.ne' hdifference

/-- Shifts take the number of places modulo 64. -/
theorem xorShift_injective {places : UInt64} (h : 0 < places.toNat % 64) :
    Function.Injective (xorShift places) := by
  intro x y hxy
  have hwords := congrArg UInt64.toNat hxy
  rw [xorShift, xorShift, UInt64.toNat_xor, UInt64.toNat_xor, UInt64.toNat_shiftRight,
    UInt64.toNat_shiftRight] at hwords
  exact UInt64.toNat_inj.mp (eq_of_xor_shiftRight h hwords)

/-- An odd number has no factor in common with the number of words. -/
theorem mul_right_injective_of_odd {c : UInt64} (h : Odd c.toNat) :
    Function.Injective fun x : UInt64 => x * c := by
  intro x y hxy
  have hmod : x.toNat * c.toNat ≡ y.toNat * c.toNat [MOD 2 ^ 64] := by
    have hnat := congrArg UInt64.toNat hxy
    rwa [UInt64.toNat_mul, UInt64.toNat_mul] at hnat
  have hcoprime : (2 ^ 64).Coprime c.toNat := Nat.Coprime.pow_left 64 (Nat.coprime_two_left.mpr h)
  have hcancel := Nat.ModEq.cancel_right_of_coprime hcoprime hmod
  exact UInt64.toNat_inj.mp (hcancel.eq_of_lt_of_lt x.toNat_lt y.toNat_lt)

/-! ## Seeds -/

theorem splitMix_eq (x : UInt64) :
    splitMix x = xorShift 31
      (xorShift 27 (xorShift 30 (x + splitMixGamma) * 0xbf58476d1ce4e5b9) * 0x94d049bb133111eb) :=
  rfl

theorem splitMix_injective : Function.Injective splitMix := by
  intro x y h
  rw [splitMix_eq, splitMix_eq] at h
  have hthird := xorShift_injective (by decide) h
  have hsecond := xorShift_injective (by decide) (mul_right_injective_of_odd (by decide) hthird)
  have hfirst := xorShift_injective (by decide) (mul_right_injective_of_odd (by decide) hsecond)
  exact (UInt64.add_left_inj splitMixGamma).mp hfirst

/-- **A SplitMix64 step rearranges the words.** -/
theorem splitMix_bijective : Function.Bijective splitMix :=
  Finite.injective_iff_bijective.mp splitMix_injective

/-- The first state word of a generator tells its seed. -/
theorem Xoshiro.ofSeed_injective : Function.Injective Xoshiro.ofSeed := by
  intro a b h
  exact splitMix_injective (congrArg Xoshiro.s0 h)

theorem Draws.ofSeed_injective : Function.Injective Draws.ofSeed := by
  intro a b h
  exact Xoshiro.ofSeed_injective (congrArg Draws.generator h)

end Winners

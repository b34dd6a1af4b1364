import Winners.Draws.Generator
import Winners.Number.Rounding

set_option autoImplicit false

/-! # Random values

A `Sampler` is a random value: a function of the stream that also says what is left of it. This
file has the elementary ones: a word, an index below a bound, a biased coin, and a coin for each
entry of a list.
-/

namespace Winners

/-- A random value, drawn from a stream of words. -/
abbrev Sampler (α : Type) := StateM Draws α

namespace Sampler

/-- The next word. -/
def word : Sampler UInt64 := fun draws => draws.next

/-- The next word as a number below `2 ^ 64`. -/
def fullNumber : Sampler (Fin 0x10000000000000000) := do
  let r ← word
  return ⟨r.toNat, r.toNat_lt⟩

/-- The upper half of the next word, a number below `2 ^ 32`. -/
def halfNumber : Sampler (Fin 0x100000000) := do
  let r := ((← word) >>> 32).toUInt32
  return ⟨r.toNat, r.toNat_lt⟩

/-! ## Indices -/

section

variable {range : Nat} (r : Fin range) {n : Nat}

/-- The index that `r` selects: the share of `n` that `r` is of the range. -/
def selected (n : Nat) : Nat := r.val * n / range

/-- What the selection leaves over. -/
def leftover (n : Nat) : Nat := r.val * n % range

theorem selected_lt (h : 0 < n) : selected r n < n := by
  apply Nat.div_lt_of_lt_mul
  exact Nat.mul_lt_mul_of_lt_of_le r.isLt (Nat.le_refl n) h

theorem selected_succ_lt (h : range - n < leftover r n) : selected r n + 1 < n := by
  have hr : r.val * n + n ≤ range * n := by
    have : (r.val + 1) * n ≤ range * n := Nat.mul_le_mul_right n r.isLt
    rwa [Nat.succ_mul] at this
  have hsplit : range * (r.val * n / range) + r.val * n % range = r.val * n :=
    Nat.div_add_mod (r.val * n) range
  unfold selected leftover at *
  have hshare : range * (r.val * n / range + 1) < range * n := by
    rw [Nat.mul_succ]
    omega
  exact Nat.lt_of_mul_lt_mul_left hshare

end

/-- An index below `n`. The first number selects it; when the leftover is so large that a finer
number could select the next index, a second number decides. -/
def indexBy {range : Nat} (number : Sampler (Fin range)) (n : Nat) (pos : 0 < n) :
    Sampler (Fin n) := do
  let first ← number
  if h : range - n < leftover first n then
    let second ← number
    if range ≤ leftover first n + selected second n then
      return ⟨selected first n + 1, selected_succ_lt first h⟩
    else
      return ⟨selected first n, selected_lt first pos⟩
  else
    return ⟨selected first n, selected_lt first pos⟩

/-- An index below `n`, chosen by half words for bounds below `2 ^ 32` and by whole words for larger
ones. -/
def below (n : Nat) (pos : 0 < n) : Sampler (Fin n) :=
  if n < 0x100000000 then indexBy halfNumber n pos else indexBy fullNumber n pos

/-! ## Coins -/

/-- True with probability `p`, for `p` between zero and one. A sure coin draws nothing. -/
def coin (p : Binary64) : Sampler Bool := do
  if p = .ofNat 1 then return true
  else return decide ((← word).toNat < p.floorTimesTwoPow64)

/-- The entries whose coin comes out true, one coin for each entry in list order. -/
def keepEach {α : Type} (p : Binary64) : List α → Sampler (List α)
  | [] => return []
  | x :: xs => do
      let kept ← coin p
      let rest ← keepEach p xs
      return if kept then x :: rest else rest

end Sampler

end Winners

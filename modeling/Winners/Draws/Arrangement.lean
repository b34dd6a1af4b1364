import Winners.Draws.Sampler

set_option autoImplicit false

/-! # Random arrangements

A uniformly random order of the entries of a vector, and a uniformly random choice of distinct
indices. There are several ways to do either; what uses one takes it as a parameter, and the one
given here where none is named.
-/

namespace Winners.Sampler

/-! ## Shuffling

The entry at position `i` is swapped with one at a position up to `i`, for every `i` in turn.
Several consecutive positions share one draw: an index below the product of their bounds is
split into one choice for each of them, lowest bound first.
-/

/-- Largest product `b * (b + 1) * …` below `2 ^ 32` and the factor after its last one. The
product at least doubles each time, so 32 factors are more than fit. -/
def chunkProduct (product next : Nat) : Nat → Nat × Nat
  | 0 => (product, next)
  | fuel + 1 =>
      if product * next < 0x100000000 then chunkProduct (product * next) (next + 1) fuel
      else (product, next)

theorem chunkProduct_pos {product next : Nat} (fuel : Nat) (hp : 0 < product) (hn : 0 < next) :
    0 < (chunkProduct product next fuel).1 := by
  induction fuel generalizing product next with
  | zero => exact hp
  | succ fuel ih =>
      unfold chunkProduct
      split
      · exact ih (Nat.mul_pos hp hn) (Nat.succ_pos next)
      · exact hp

/-- What is left of a shared draw, and how many positions it still serves. -/
structure Chunk where
  value : Nat
  uses : Nat

/-- A fresh draw that serves the positions from `b - 1` on. -/
def freshChunk (b : Nat) (h : 0 < b) : Sampler Chunk := do
  let factors := chunkProduct b (b + 1) 32
  let value ← below factors.1 (chunkProduct_pos 32 h (Nat.succ_pos b))
  return ⟨value.val, factors.2 - b⟩

/-- The choice of the position `b - 1`: an index below `b`. -/
def chunkIndex (chunk : Chunk) (b : Nat) (h : 0 < b) : Sampler (Nat × Chunk) := do
  let chunk ← if chunk.uses = 0 then freshChunk b h else pure chunk
  if chunk.uses = 1 then return (chunk.value, ⟨chunk.value, 0⟩)
  else return (chunk.value % b, ⟨chunk.value / b, chunk.uses - 1⟩)

/-- Swaps the entry at position `i` with the one that the draw chooses. -/
def shuffleStep {α : Type} {n : Nat} (state : Vector α n × Chunk) (i : Nat) :
    Sampler (Vector α n × Chunk) := do
  let (j, chunk) ← chunkIndex state.2 (i + 1) (Nat.succ_pos i)
  return (state.1.swapIfInBounds i j, chunk)

/-- A way to rearrange indices at random. -/
abbrev Rearrangement (n : Nat) := Vector (Fin n) n → Sampler (Vector (Fin n) n)

/-- A random order of the entries. The first position has no choice and needs no draw. -/
def shuffle {α : Type} {n : Nat} (xs : Vector α n) : Sampler (Vector α n) := do
  let (shuffled, _) ← (List.range n).foldlM shuffleStep (xs, ⟨0, 1⟩)
  return shuffled

/-! ## Distinct indices -/

/-- A way to choose an amount of the indices below `n` at random. -/
abbrev IndexChoice := (n amount : Nat) → Sampler (List (Fin n))

/-- Swaps the entry at `i` with one at `i` or after it. -/
def drawForward {n : Nat} (xs : Vector (Fin n) n) (i : Fin n) : Sampler (Vector (Fin n) n) := do
  let j ← below (n - i.val) (Nat.sub_pos_of_lt i.isLt)
  return xs.swapIfInBounds i.val (i.val + j.val)

/-- The first `amount` entries of a partial shuffle of all indices. -/
def indicesInPlace (n amount : Nat) : Sampler (List (Fin n)) := do
  let xs ← ((List.finRange n).take amount).foldlM drawForward (Vector.ofFn id)
  return xs.toList.take amount

/-- Chooses an index up to `top`. One that was chosen before hands its place to `top`, which is
new because all earlier choices were below it. -/
def chooseUpTo {n : Nat} (chosen : List (Fin n)) (top : Fin n) : Sampler (List (Fin n)) := do
  let pick ← below (top.val + 1) (Nat.succ_pos top.val)
  let pick := pick.castLE top.isLt
  return chosen.replace pick top ++ [pick]

/-- One index for each of the `amount` greatest indices. -/
def indicesOneByOne (n amount : Nat) : Sampler (List (Fin n)) :=
  ((List.finRange n).drop (n - amount)).foldlM chooseUpTo []

/-- `amount` distinct indices below `n`, for `amount` up to `n`. Few indices out of many are
chosen one by one, many or a large share in place: from 163 on, and from 12 on when `n` is below
`(10 + 1.6 * amount) * amount`. These limits suit `n` below 500000 and, from 163 on, below
`270 * amount`. Beyond them other ways are faster: other limits, or drawing indices until enough of
them are distinct. -/
def indices : IndexChoice := fun n amount =>
  if 163 ≤ amount || (11 < amount && 5 * n < (50 + 8 * amount) * amount) then
    indicesInPlace n amount
  else
    indicesOneByOne n amount

end Winners.Sampler

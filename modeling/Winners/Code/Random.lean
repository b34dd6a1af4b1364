import Winners.Code.Basic
import Winners.Draws.Arrangement

set_option autoImplicit false

/-! # Random codes

Gallager's construction stacks blocks of checks. The checks of a block cut a row of all bits
into runs of equal length, so that each bit lies in one check of every block; the first block
takes the bits in order and each later one shuffles the row of the block before it.

Tanner's construction lets every bit pick its checks at random, with replacement.
-/

namespace Winners.Code

/-- The bits in the order in which each of `j` blocks cuts them. -/
def blockOrders {n : Nat} (shuffle : Sampler.Rearrangement n) :
    (j : Nat) → Sampler (Vector (Vector (Fin n) n) j)
  | 0 => return #v[]
  | 1 => return #v[Vector.finRange n]
  | j + 2 => do
      let orders ← blockOrders shuffle (j + 1)
      let next ← shuffle orders.back
      return orders.push next

theorem run_index_lt {n k : Nat} (row : Fin (n / k)) (t : Fin k) : row.val * k + t.val < n := by
  have ht := t.isLt
  have hr : (row.val + 1) * k ≤ n / k * k := Nat.mul_le_mul_right k row.isLt
  have hn : n / k * k ≤ n := Nat.div_mul_le_self n k
  rw [Nat.succ_mul] at hr
  omega

/-- Run number `row` of length `k` in a row of bits. -/
def runOf {n : Nat} (k : Nat) (order : Vector (Fin n) n) (row : Fin (n / k)) : List (Fin n) :=
  (List.finRange k).map fun t => order.get ⟨row.val * k + t.val, run_index_lt row t⟩

/-- The checks of all blocks, block after block. -/
def stackBlocks {n j : Nat} (k : Nat) (orders : Vector (Vector (Fin n) n) j) :
    Vector (List (Fin n)) (j * (n / k)) :=
  (orders.map fun order => (Vector.finRange (n / k)).map (runOf k order)).flatten

/-- A random code on `n` bits in which every check touches `k` bits and every bit lies in `j`
checks. -/
def gallager (n j k : Nat) (shuffle : Sampler.Rearrangement n := Sampler.shuffle) :
    Except Error (Sampler (Code n (j * (n / k)))) := do
  if n = 0 ∨ j = 0 ∨ k = 0 then throw (.invalid (.gallagerPositive n j k))
  if n % k ≠ 0 then throw (.invalid (.gallagerDivides n k))
  return do
    let orders ← blockOrders shuffle j
    return ofElements (stackBlocks k orders)

/-- The checks that one bit picks, with replacement. -/
def picksOf (m : Nat) (pos : 0 < m) (degree : Nat) : Sampler (List (Fin m)) :=
  (List.replicate degree ()).mapM fun _ => Sampler.below m pos

/-- A random code in which every bit picks `degree` of the `m` checks, bit after bit. -/
def tanner (n m degree : Nat) : Except Error (Sampler (Code n m)) :=
  if pos : 0 < m then
    .ok do
      let picks ← (Vector.replicate n ()).mapM fun _ => picksOf m pos degree
      return ofElements (transpose picks)
  else if 0 < degree then .error (.invalid .tannerChecks)
  else .ok (return ofElements (Vector.replicate m []))

end Winners.Code

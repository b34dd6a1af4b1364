import Winners.Graph.Basic
import Winners.Draws.Arrangement

set_option autoImplicit false

/-! # Random graphs

In an Erdős–Rényi graph every pair of vertices is joined with the same probability. A planted
independent set is chosen first; no pair inside it is joined, nor is a coin spent on it.
The coins are drawn in lexicographic order of the pairs.
-/

namespace Winners.Graph

/-- Accepts the probabilities: the numbers from zero to one. -/
def checkProbability (p : Binary64) : Except Error Unit :=
  if Binary64.zero ≤ p ∧ p ≤ .ofNat 1 then .ok () else .error (.invalid (.edgeProbability p))

/-- The graph whose edges are the pairs, row by row, whose coin comes out true. -/
def ofCoins {n : Nat} (p : Binary64) (rows : List (List (Fin n × Fin n))) :
    Sampler (Graph n) := do
  let kept ← rows.mapM (Sampler.keepEach p)
  return ofPairs kept.flatten

/-- A random graph in which each pair is an edge with probability `p`. -/
def erdosRenyi (n : Nat) (p : Binary64) : Except Error (Sampler (Graph n)) := do
  checkProbability p
  return ofCoins p (pairRows n)

/-- The rows of pairs without those inside a set. -/
def pairRowsOutside {n : Nat} (inside : Fin n → Bool) : List (List (Fin n × Fin n)) :=
  (pairRows n).map fun row => row.filter fun e => !(inside e.1 && inside e.2)

/-- A random graph in which `size` random vertices, listed in ascending order, are pairwise not
adjacent, and any other pair is an edge with probability `p`. -/
def withPlantedIndependentSet (n : Nat) (p : Binary64) (size : Nat)
    (choose : Sampler.IndexChoice := Sampler.indices) :
    Except Error (Sampler (Graph n × List (Fin n))) := do
  checkProbability p
  if n < size then throw (.invalid (.plantedSize size n))
  return do
    let planted := ascending (← choose n size)
    let inside : Vector Bool n := Vector.ofFn fun v => decide (v ∈ planted)
    let graph ← ofCoins p (pairRowsOutside inside.get)
    return (graph, planted)

end Winners.Graph

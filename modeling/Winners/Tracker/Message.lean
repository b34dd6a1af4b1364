import Winners.Code.Basic
import Winners.Tracker.Basic
import Winners.Draws.Sampler

set_option autoImplicit false

/-! # Messages

A message over the bits of a code, scored by the weight of the checks it satisfies. Flipping a
bit changes the state of every check that touches it: a satisfied one costs its weight, another
gains it. The marginal of a bit adds this up over its checks. When a check changes state, the
marginal of each bit it touches moves by twice its weight.

The score and the marginals are numbers of the type that the code adds its weights up in. Searches
and audits read them as integers.
-/

namespace Winners

/-- A message over the bits of `C` with its caches. -/
structure Message {n m : Nat} {R : Type} (C : Code n m R) where
  bits : Vector Bool n
  satisfied : Vector Bool m
  marginals : Vector R n
  score : R
deriving DecidableEq

namespace Message

variable {n m : Nat} {R : Type} {C : Code n m R}

/-- Changes the marginal of every bit of a list. -/
def shiftMarginals [Add R] (shift : R) (touched : List (Fin n)) (marginals : Vector R n) :
    Vector R n :=
  touched.foldl (fun marginals (b : Fin n) => marginals.set b (marginals.get b + shift) b.isLt)
    marginals

/-! ## Construction -/

section

variable [Add R] [Neg R] [OfNat R 0]

/-- What the score gains when check `c` changes its state. -/
def gain (C : Code n m R) (satisfied : Bool) (c : Fin m) : R :=
  if satisfied then -C.weights.get c else C.weights.get c

/-- The message with caches computed from scratch. Each check adds what it gains to the marginals of
its bits. -/
def ofBits (C : Code n m R) (bits : Vector Bool n) : Message C :=
  let satisfied := Vector.ofFn (C.satisfies bits.get)
  { bits
    satisfied
    marginals := (List.finRange m).foldl
      (fun marginals c => shiftMarginals (gain C (satisfied.get c) c) (C.elements.get c) marginals)
      (Vector.replicate n 0)
    score := C.weightOfAll ((List.finRange m).filter satisfied.get) }

/-- The message given by a list with one entry for each bit. -/
def ofList (C : Code n m R) (bits : List Bool) : Except Error (Message C) :=
  if h : bits.length = n then .ok (ofBits C ⟨bits.toArray, by simpa using h⟩)
  else .error (.invalid (.messageLength bits.length n))

/-- The message without set bits, which satisfies every check. -/
def zeros (C : Code n m R) : Message C := ofBits C (Vector.replicate n false)

/-- A uniformly random message. -/
def random (C : Code n m R) : Sampler (Message C) := do
  return ofBits C (← (Vector.replicate n ()).mapM fun _ => Sampler.coin (.ofRatio 1 2))

end

/-! ## Flips -/

section

variable [Add R] [Sub R] [Neg R] [Mul R] [OfNat R 2]

/-- Turns a satisfied check into an unsatisfied one and back. -/
def toggleCheck (x : Message C) (c : Fin m) : Message C :=
  let w := C.weights.get c
  if x.satisfied.get c then
    { x with
      satisfied := x.satisfied.set c false c.isLt
      score := x.score - w
      marginals := shiftMarginals (2 * w) (C.elements.get c) x.marginals }
  else
    { x with
      satisfied := x.satisfied.set c true c.isLt
      score := x.score + w
      marginals := shiftMarginals (-2 * w) (C.elements.get c) x.marginals }

/-- Flips a bit. -/
def flip (x : Message C) (bit : Fin n) : Message C :=
  (C.constraints.get bit).foldl toggleCheck
    { x with bits := x.bits.set bit (!x.bits.get bit) bit.isLt }

end

/-- A codeword after a noisy channel has flipped each of its bits with probability `p`. -/
def perturbed [Add R] [Sub R] [Neg R] [Mul R] [OfNat R 0] [OfNat R 2] (C : Code n m R)
    (codeword : List Bool) (p : Binary64) : Except Error (Sampler (Message C)) := do
  if ¬(Binary64.zero ≤ p ∧ p ≤ .ofNat 1) then throw (.invalid (.flipProbability p))
  let x ← ofList C codeword
  return do
    let flipped ← Sampler.keepEach p (List.finRange n)
    return flipped.foldl flip x

/-! ## Queries -/

def bitAt (x : Message C) (bit : Nat) : Except Error Bool := do
  return x.bits.get (← checkIndex bit n)

def isSatisfied (x : Message C) (check : Nat) : Except Error Bool := do
  return x.satisfied.get (← checkIndex check m)

/-- The number of checks that are not satisfied, whatever their weight. -/
def unsatisfiedCount (x : Message C) : Nat := x.satisfied.toList.countP (!·)

/-- Whether the message has the score of a codeword. -/
def isCodeword [Add R] [OfNat R 0] [BEq R] (x : Message C) : Bool := x.score == C.totalWeight

/-- The number of positions in which the message differs from another one. -/
def hammingDistance (x : Message C) (other : List Bool) : Except Error Nat :=
  if other.length = n then .ok ((x.bits.toList.zip other).countP fun (a, b) => a != b)
  else .error (.invalid (.comparedLength n other.length))

/-- The bit with the greatest positive marginal, the lowest of several, and that marginal. -/
def bestFlip [OfNat R 0] [LT R] [DecidableLT R] (x : Message C) : Option (Fin n × R) :=
  (List.finRange n).foldl
    (fun best (bit : Fin n) =>
      let gain := x.marginals.get bit
      let most := match best with
        | none => 0
        | some (_, most) => most
      if most < gain then some (bit, gain) else best)
    none

/-! ## Scores as integers -/

/-- A type of numbers that scores are kept in. -/
class ScoreType (R : Type) where
  /-- The integer that a number stands for. -/
  toInt : R → Int
  /-- How far apart two scores can be when the best one is known. -/
  span : R → Nat

/-- Scores lie between zero and the best one. -/
instance : ScoreType Int where
  toInt := id
  span := Int.toNat

/-- Sums that wrap around lie anywhere among the words of 64 bits. -/
instance : ScoreType Int64 where
  toInt := Int64.toInt
  span _ := 0x10000000000000000

instance [Add R] [Sub R] [Neg R] [Mul R] [OfNat R 0] [OfNat R 2] [ScoreType R] :
    Tracker (Message C) Nat Bool where
  size _ := n
  score x := ScoreType.toInt x.score
  marginal x bit := do return ScoreType.toInt (x.marginals.get (← checkIndex bit n))
  apply := Tracker.applyAt flip
  unchanged := Tracker.applyAt_unchanged
  assignment x := x.bits.toList
  scoreFromScratch x := ScoreType.toInt (C.satisfiedWeight x.bits.get)
  rebuild x := ofBits C x.bits
  scoreSpan _ := ScoreType.span C.totalWeight
  moveText bit := toString bit

end Message

end Winners

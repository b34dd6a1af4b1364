import Winners.Graph.Basic

set_option autoImplicit false

/-! # Parity-check codes

A code on `n` bits has `m` checks. Each check touches a set of bits and is satisfied by a message
when an even number of them is set; each has a positive integer weight. The incidence between
bits and checks is kept from both sides: `elements` lists the bits of each check and
`constraints` the checks of each bit, both ascending.

A program adds weights up in machine words, where a sum that is too large wraps around. So the type
`R` that weights are added up in is a parameter. Codes are made with integers; `Code.words` is a code
with its weights as words.
-/

namespace Winners

/-- Adds `x` in front of the rows of all its targets. -/
def scatter {a b : Nat} (x : Fin a) (targets : List (Fin b)) (rows : Vector (List (Fin a)) b) :
    Vector (List (Fin a)) b :=
  targets.foldl (fun rows (y : Fin b) => rows.set y (x :: rows.get y) y.isLt) rows

/-- An incidence seen from the other side: row `y` of the result lists, in ascending order, the
`x` whose row lists `y`. -/
def transpose {a b : Nat} (rows : Vector (List (Fin b)) a) : Vector (List (Fin a)) b :=
  (List.finRange a).foldr (fun x result => scatter x (rows.get x) result) (Vector.replicate b [])

/-- A parity-check code with `n` bits and `m` checks, and its weights in `R`. -/
structure Code (n m : Nat) (R : Type := Int) where
  elements : Vector (List (Fin n)) m
  constraints : Vector (List (Fin m)) n
  weights : Vector R m
deriving DecidableEq

namespace Code

variable {n m : Nat} {R : Type}

/-! ## Construction -/

/-- The code whose checks touch the given bits, all of weight one. A bit named twice by a check
counts once. -/
def ofElements (elements : Vector (List (Fin n)) m) : Code n m where
  elements := elements.map ascending
  constraints := transpose (elements.map ascending)
  weights := Vector.replicate m 1

/-- The code of checks given by bare numbers. The first number, in reading order, that is no bit
is refused. -/
def ofChecks (n : Nat) (checks : Vector (List Nat) m) : Except Error (Code n m) := do
  return ofElements (← checks.mapM fun bits => bits.mapM (checkIndex · n))

/-- The code with other weights, one positive weight for each check. -/
def withWeights (C : Code n m) (weights : List Int) : Except Error (Code n m) :=
  if h : weights.length = m then
    match weights.find? (· ≤ 0) with
    | some w => .error (.invalid (.weight w))
    | none => .ok { C with weights := ⟨weights.toArray, by simpa using h⟩ }
  else .error (.invalid (.weightCount m weights.length))

/-- The code with its weights as words of 64 bits. -/
def words (C : Code n m) : Code n m Int64 where
  elements := C.elements
  constraints := C.constraints
  weights := C.weights.map Int64.ofInt

/-! ## Queries -/

/-- The checks that touch a bit. -/
def constraintsOf (C : Code n m R) (bit : Nat) : Except Error (List (Fin m)) := do
  return C.constraints.get (← checkIndex bit n)

/-- The bits that a check touches. -/
def elementsOf (C : Code n m R) (check : Nat) : Except Error (List (Fin n)) := do
  return C.elements.get (← checkIndex check m)

def weightOf (C : Code n m R) (check : Nat) : Except Error R := do
  return C.weights.get (← checkIndex check m)

section

variable [Add R] [OfNat R 0]

/-- The weight of some checks together. -/
def weightOfAll (C : Code n m R) (checks : List (Fin m)) : R :=
  checks.foldr (fun check total => C.weights.get check + total) 0

/-- The weight of all checks, which is the best score of a message. -/
def totalWeight (C : Code n m R) : R := C.weightOfAll (List.finRange m)

end

/-! ## Messages -/

/-- Whether an even number of the bits of `check` is set. -/
def satisfies (C : Code n m R) (message : Fin n → Bool) (check : Fin m) : Bool :=
  (C.elements.get check).countP message % 2 == 0

/-- The weight of the checks that a message satisfies. -/
def satisfiedWeight [Add R] [OfNat R 0] (C : Code n m R) (message : Fin n → Bool) : R :=
  C.weightOfAll ((List.finRange m).filter (C.satisfies message))

/-- `satisfies` for a message given as a list of bits and a check given by a bare number. A bit
that is needed and missing, or a check that does not exist, leaves no answer. -/
def satisfiesFlags? (C : Code n m R) (message : Array Bool) (check : Nat) : Option Bool := do
  let bits ← C.elements[check]?
  let values ← bits.mapM fun bit => message[bit]?
  return values.countP id % 2 == 0

/-- `satisfiedWeight` for a message given as a list of bits. -/
def satisfiedWeightFlags? [Add R] [OfNat R 0] (C : Code n m R) (message : Array Bool) :
    Option R := do
  let satisfied ← (List.finRange m).filterM fun (check : Fin m) => C.satisfiesFlags? message check
  return C.weightOfAll satisfied

end Code

end Winners

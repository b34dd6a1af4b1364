import Winners.Graph.Basic
import Winners.Tracker.Basic
import Winners.Draws.Arrangement
import Winners.Number.Arithmetic

set_option autoImplicit false

/-! # Vertex subsets

A set of vertices of a graph, scored by the number of edges inside it. The cache holds for each
vertex its number of neighbours in the set, which is what the score gains when the vertex
enters and loses when it leaves.

Members and other vertices are also kept in two arrays, so that a random one is found by a random
index. `slot` is the position of each vertex in the array that holds it. A vertex leaves an array
by handing its position to the last entry.
-/

namespace Winners

/-! ## The two arrays -/

/-- The vertices inside and outside a set, and where each stands. -/
structure Sides (n : Nat) where
  inside : Array (Fin n)
  outside : Array (Fin n)
  slot : Vector Nat n
deriving DecidableEq

/-- Removes the entry at a position; the last entry takes its place. -/
def swapRemove {α : Type} (xs : Array α) (position : Nat) : Array α :=
  match xs.back? with
  | none => xs
  | some last => (xs.setIfInBounds position last).pop

namespace Sides

variable {n : Nat}

/-- No vertex stands anywhere. -/
def empty (n : Nat) : Sides n := ⟨#[], #[], Vector.replicate n 0⟩

/-- Appends a vertex to one of the arrays. -/
def append (s : Sides n) (v : Fin n) (isMember : Bool) : Sides n :=
  if isMember then
    { s with inside := s.inside.push v, slot := s.slot.set v s.inside.size v.isLt }
  else
    { s with outside := s.outside.push v, slot := s.slot.set v s.outside.size v.isLt }

/-- The slots after the entry at `position` has left the array that is now `rest`: a vertex that
moved there has a new slot. -/
def fillHole (slot : Vector Nat n) (rest : Array (Fin n)) (position : Nat) : Vector Nat n :=
  match rest[position]? with
  | some moved => slot.set moved position moved.isLt
  | none => slot

/-- Removes a vertex from the array it stands in. -/
def remove (s : Sides n) (v : Fin n) (isMember : Bool) : Sides n :=
  let position := s.slot.get v
  if isMember then
    let inside := swapRemove s.inside position
    { s with inside, slot := fillHole s.slot inside position }
  else
    let outside := swapRemove s.outside position
    { s with outside, slot := fillHole s.slot outside position }

/-- Moves a vertex to the other array. -/
def cross (s : Sides n) (v : Fin n) (isMember : Bool) : Sides n :=
  (s.remove v isMember).append v (!isMember)

/-- The arrays of a set, both ascending. -/
def ofMembers (member : Vector Bool n) : Sides n :=
  (List.finRange n).foldl (fun s v => s.append v (member.get v)) (empty n)

end Sides

/-- A uniformly random entry, if there is one. -/
def Sampler.entry {α : Type} (xs : Array α) : Sampler (Option α) :=
  if h : 0 < xs.size then do
    let i ← Sampler.below xs.size h
    return some xs[i]
  else return none

/-! ## The tracker -/

/-- A set of vertices of `G` with its caches. -/
structure VertexSubset {n : Nat} (G : Graph n) where
  member : Vector Bool n
  internalDegree : Vector Nat n
  edgesInside : Int
  sides : Sides n
deriving DecidableEq

namespace VertexSubset

variable {n : Nat} {G : Graph n}

/-- The set with caches computed from scratch. -/
def ofMembers (G : Graph n) (member : Vector Bool n) : VertexSubset G where
  member
  internalDegree := Vector.ofFn fun v => (G.neighbors.get v).countP member.get
  edgesInside := G.edgesWithin member.get
  sides := Sides.ofMembers member

def empty (G : Graph n) : VertexSubset G := ofMembers G (Vector.replicate n false)

/-- The set of some vertices. -/
def ofVertices (G : Graph n) (vertices : List (Fin n)) : VertexSubset G :=
  ofMembers G (vertices.foldl (fun member (v : Fin n) => member.set v true v.isLt)
    (Vector.replicate n false))

/-- The set of some vertices given by bare numbers, which may repeat. -/
def ofList (G : Graph n) (vertices : List Nat) : Except Error (VertexSubset G) := do
  return ofVertices G (← vertices.mapM (checkIndex · n))

/-- A uniformly random set of `size` vertices, as many as `choose` is to choose. -/
def random (G : Graph n) (size : Nat) (choose : Sampler.IndexChoice := Sampler.indices) :
    Except Error (Sampler (VertexSubset G)) := do
  if n < size then throw (.invalid (.subsetSize size n))
  return do return ofVertices G (← choose n size)

/-! ## Queries -/

def contains (S : VertexSubset G) (v : Nat) : Except Error Bool := do
  return S.member.get (← checkIndex v n)

/-- Number of members. -/
def size (S : VertexSubset G) : Nat := S.sides.inside.size

/-- Number of neighbours in the set. -/
def internalDegreeAt (S : VertexSubset G) (v : Nat) : Except Error Nat := do
  return S.internalDegree.get (← checkIndex v n)

/-- The share of the pairs of members that are edges; zero if there is no pair. -/
def density (S : VertexSubset G) : Binary64 :=
  if S.size ≤ 1 then .zero
  else .ofInt S.edgesInside / .ofNat (S.size * (S.size - 1) / 2)

/-- The members, ascending. -/
def members (S : VertexSubset G) : List (Fin n) := ascending S.sides.inside.toList

def randomMember (S : VertexSubset G) : Sampler (Option (Fin n)) := Sampler.entry S.sides.inside

def randomNonMember (S : VertexSubset G) : Sampler (Option (Fin n)) :=
  Sampler.entry S.sides.outside

/-- What the score changes by when `v` enters or leaves. -/
def marginal (S : VertexSubset G) (v : Fin n) : Int :=
  if S.member.get v then -(S.internalDegree.get v : Int) else S.internalDegree.get v

/-! ## Mutations -/

/-- Changes the count of neighbours in the set for every vertex of a list. -/
def adjustDegrees (change : Nat → Nat) (vertices : List (Fin n)) (degrees : Vector Nat n) :
    Vector Nat n :=
  vertices.foldl (fun degrees (u : Fin n) => degrees.set u (change (degrees.get u)) u.isLt) degrees

/-- Lets a vertex enter, or leave if it is a member. -/
def toggle (S : VertexSubset G) (v : Fin n) : VertexSubset G :=
  if S.member.get v then
    { member := S.member.set v false v.isLt
      internalDegree := adjustDegrees (· - 1) (G.neighbors.get v) S.internalDegree
      edgesInside := S.edgesInside - S.internalDegree.get v
      sides := S.sides.cross v true }
  else
    { member := S.member.set v true v.isLt
      internalDegree := adjustDegrees (· + 1) (G.neighbors.get v) S.internalDegree
      edgesInside := S.edgesInside + S.internalDegree.get v
      sides := S.sides.cross v false }

/-- Exchanges a vertex outside the set with a member. Beside the result stands the subset as it is
then. -/
def exchange (S : VertexSubset G) (add remove : Nat) : Except Error Unit × VertexSubset G :=
  match checkIndex add n with
  | .error e => (.error e, S)
  | .ok a =>
      if S.member.get a then (.error (.invalid (.alreadyMember add)), S)
      else
        match checkIndex remove n with
        | .error e => (.error e, S)
        | .ok r =>
            if S.member.get r then (.ok (), (S.toggle a).toggle r)
            else (.error (.invalid (.notMember remove)), S)

/-- The subset after an exchange, unless it is refused. -/
def swap (S : VertexSubset G) (add remove : Nat) : Except Error (VertexSubset G) :=
  (S.exchange add remove).1.map fun _ => (S.exchange add remove).2

instance : Tracker (VertexSubset G) Nat Bool where
  size _ := n
  score S := S.edgesInside
  fitness S := S.density
  marginal S v := do return S.marginal (← checkIndex v n)
  apply := Tracker.applyAt toggle
  unchanged := Tracker.applyAt_unchanged
  assignment S := S.member.toList
  scoreFromScratch S := G.edgesWithin S.member.get
  rebuild S := ofMembers G S.member
  scoreSpan _ := G.edgeCount
  moveText v := toString v

end VertexSubset

end Winners

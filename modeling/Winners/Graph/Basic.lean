import Winners.Error

set_option autoImplicit false

/-! # Simple graphs

A graph on the vertices `0, …, n - 1` is the vector of its neighbour lists. A graph is built from
edges by appending each end to the list of the other and then putting every list in order, without
repetitions. So it depends only on its set of edges, and its lists are read in a fixed order.

The queries that take a vertex as a bare number refuse one that is out of range; `hasEdge` takes
it for a vertex without neighbours.
-/

namespace Winners

/-- Enters `x` into an ascending list, unless it is there. -/
def insertAscending {n : Nat} (x : Fin n) : List (Fin n) → List (Fin n)
  | [] => [x]
  | y :: ys =>
      if x < y then x :: y :: ys
      else if x = y then y :: ys
      else y :: insertAscending x ys

/-- The distinct entries of a list in ascending order. -/
def ascending {n : Nat} (xs : List (Fin n)) : List (Fin n) := xs.foldr insertAscending []

/-- A graph on `n` vertices, given by the neighbours of each. -/
structure Graph (n : Nat) where
  neighbors : Vector (List (Fin n)) n
deriving DecidableEq

namespace Graph

variable {n : Nat}

/-! ## Construction -/

/-- The graph without edges. -/
def empty (n : Nat) : Graph n := ⟨Vector.replicate n []⟩

/-- The graph with the given lists of neighbours, each of them put in order. -/
def ofLists (lists : Vector (List (Fin n)) n) : Graph n := ⟨lists.map ascending⟩

/-- Appends each end of an edge to the list of the other. -/
def pushEnds (lists : Vector (List (Fin n)) n) (e : Fin n × Fin n) : Vector (List (Fin n)) n :=
  let lists := lists.set e.1 (lists.get e.1 ++ [e.2]) e.1.isLt
  lists.set e.2 (lists.get e.2 ++ [e.1]) e.2.isLt

/-- The graph with the given edges. -/
def ofPairs (pairs : List (Fin n × Fin n)) : Graph n :=
  ofLists (pairs.foldl pushEnds (Vector.replicate n []))

/-- The ends of an edge as vertices. An edge to itself is refused. -/
def checkEdge (n : Nat) (e : Nat × Nat) : Except Error (Fin n × Fin n) := do
  let u ← checkIndex e.1 n
  let v ← checkIndex e.2 n
  if u = v then throw (.invalid (.selfLoop e.1))
  return (u, v)

/-- The graph of an edge list, in which an edge may occur repeatedly and either way round. The
first edge that is refused is the one reported. -/
def ofEdges (n : Nat) (edges : List (Nat × Nat)) : Except Error (Graph n) := do
  return ofPairs (← edges.mapM (checkEdge n))

/-- The path through all vertices in order. -/
def path (n : Nat) : Graph n :=
  ofPairs ((List.finRange n).filterMap fun v =>
    if v.val = 0 then none else some (⟨v.val - 1, by omega⟩, v))

/-- The graph in which any two vertices are joined. -/
def complete (n : Nat) : Graph n :=
  ofLists (Vector.ofFn fun v => (List.finRange n).filter (· ≠ v))

/-- The pairs `(u, v)` with `u < v`, one row for each `u`. -/
def pairRows (n : Nat) : List (List (Fin n × Fin n)) :=
  (List.finRange n).map fun (u : Fin n) => ((List.finRange n).drop (u + 1)).map fun v => (u, v)

/-! ## Queries -/

/-- The neighbours of a vertex, ascending. -/
def neighborsAt (G : Graph n) (v : Nat) : Except Error (List (Fin n)) := do
  return G.neighbors.get (← checkIndex v n)

def degreeAt (G : Graph n) (v : Nat) : Except Error Nat := do
  return (← G.neighborsAt v).length

def Adjacent (G : Graph n) (u v : Fin n) : Prop := v ∈ G.neighbors.get u

instance (G : Graph n) (u v : Fin n) : Decidable (G.Adjacent u v) :=
  inferInstanceAs (Decidable (v ∈ G.neighbors.get u))

/-- Whether two numbers are adjacent vertices. -/
def hasEdge (G : Graph n) (u v : Nat) : Bool :=
  if hu : u < n then
    if hv : v < n then decide (G.Adjacent ⟨u, hu⟩ ⟨v, hv⟩) else false
  else false

/-- Half the number of entries in the neighbour lists. -/
def edgeCount (G : Graph n) : Nat := G.neighbors.toList.flatten.length / 2

def maxDegree (G : Graph n) : Nat := (G.neighbors.toList.map List.length).foldl max 0

/-- Every edge once, lower end first, in lexicographic order. -/
def edges (G : Graph n) : List (Fin n × Fin n) :=
  (List.finRange n).flatMap fun u => ((G.neighbors.get u).filter (u < ·)).map fun v => (u, v)

/-- Number of edges with both ends in a set. -/
def edgesWithin (G : Graph n) (inside : Fin n → Bool) : Nat :=
  G.edges.countP fun e => inside e.1 && inside e.2

/-- `edgesWithin` for a set given by flags. The second end of an edge is looked up only when the
first is in the set; a flag that is needed and missing leaves no answer. -/
def edgesWithinFlags? (G : Graph n) (flags : Array Bool) : Option Nat :=
  G.edges.foldlM
    (fun count e => do
      if ← flags[e.1]? then
        if ← flags[e.2]? then return count + 1
      return count)
    0

/-- Whether no two entries of a list are adjacent. -/
def isIndependent (G : Graph n) : List Nat → Bool
  | [] => true
  | u :: rest => rest.all (fun v => !G.hasEdge u v) && G.isIndependent rest

end Graph

end Winners

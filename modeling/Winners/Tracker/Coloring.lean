import Winners.Graph.Basic
import Winners.Tracker.Basic
import Winners.Draws.Sampler

set_option autoImplicit false

/-! # Colourings

A colour for each vertex of a graph, scored by the number of conflicts: edges whose ends have the
same colour. The palette of a vertex counts its neighbours of each colour, so recolouring a
vertex changes the score by the difference of two entries of its palette. The marginal of a
vertex is the least change that any other colour makes; with a single colour it is zero.
-/

namespace Winners

/-- The move that gives a colour to a vertex. -/
structure Recolor where
  node : Nat
  color : Nat
deriving DecidableEq

def Recolor.text (move : Recolor) : String :=
  "Recolor \x7b node: " ++ toString move.node ++ ", color: " ++ toString move.color ++ " \x7d"

/-- A colouring of `G` with `k` colours and its caches. -/
structure Coloring {n : Nat} (G : Graph n) where
  k : Nat
  colors : Vector (Fin k) n
  palette : Vector (Vector Nat k) n
  marginals : Vector Int n
  conflicts : Int
deriving DecidableEq

namespace Coloring

variable {n : Nat} {G : Graph n}

/-! ## Changes of the score -/

/-- The change of the score when a vertex with the given palette goes from one colour to
another. -/
def delta {k : Nat} (palette : Vector Nat k) (old new : Fin k) : Int :=
  (palette.get new : Int) - palette.get old

/-- The colours other than `c`, ascending. -/
def otherColors {k : Nat} (c : Fin k) : List (Fin k) := (List.finRange k).filter (· ≠ c)

/-- The least change that another colour makes. -/
def bestDelta {k : Nat} (palette : Vector Nat k) (c : Fin k) : Int :=
  ((otherColors c).map (delta palette c)).min?.getD 0

/-! ## Construction -/

/-- The number of neighbours of `v` of each colour. -/
def paletteOf {k : Nat} (G : Graph n) (colors : Vector (Fin k) n) (v : Fin n) : Vector Nat k :=
  Vector.ofFn fun c => (G.neighbors.get v).countP fun u => colors.get u = c

/-- The number of conflicts, each counted from both ends and halved. -/
def conflictsOf {k : Nat} (G : Graph n) (colors : Vector (Fin k) n) : Nat :=
  ((List.finRange n).flatMap fun v =>
    (G.neighbors.get v).filter fun u => colors.get u = colors.get v).length / 2

/-- The colouring with caches computed from scratch. -/
def ofColors {k : Nat} (G : Graph n) (colors : Vector (Fin k) n) : Coloring G :=
  let palette := Vector.ofFn (paletteOf G colors)
  { k
    colors
    palette
    marginals := Vector.ofFn fun v => bestDelta (palette.get v) (colors.get v)
    conflicts := conflictsOf G colors }

/-- The colouring given by a list of colours, one for each vertex. -/
def ofList (G : Graph n) (k : Nat) (colors : List Nat) : Except Error (Coloring G) := do
  if k = 0 then throw (.invalid .noColor)
  if h : colors.length = n then
    let colors : Vector Nat n := ⟨colors.toArray, by simpa using h⟩
    return ofColors G (← colors.mapM (checkIndex · k))
  else throw (.invalid (.coloringLength colors.length n))

/-- Every vertex has the first colour. -/
def uniform (G : Graph n) (k : Nat) : Except Error (Coloring G) :=
  if h : 0 < k then .ok (ofColors G (Vector.replicate n (⟨0, h⟩ : Fin k)))
  else .error (.invalid .noColor)

/-- An independent uniformly random colour for each vertex. -/
def random (G : Graph n) (k : Nat) : Except Error (Sampler (Coloring G)) :=
  if h : 0 < k then
    .ok do return ofColors G (← (Vector.replicate n ()).mapM fun _ => Sampler.below k h)
  else .error (.invalid .noColor)

/-! ## Queries -/

def colorOf (C : Coloring G) (v : Nat) : Except Error Nat := do
  return C.colors.get (← checkIndex v n)

/-- Whether no edge joins two vertices of the same colour. -/
def isProper (C : Coloring G) : Bool := C.conflicts == 0

/-- The number of neighbours of a vertex that share its colour. -/
def conflictsWith (C : Coloring G) (v : Fin n) : Nat := (C.palette.get v).get (C.colors.get v)

def conflictsAt (C : Coloring G) (v : Nat) : Except Error Nat := do
  return C.conflictsWith (← checkIndex v n)

/-- The change of the score when a vertex gets a colour. -/
def recolorDelta (C : Coloring G) (v color : Nat) : Except Error Int := do
  let v ← checkIndex v n
  let color ← checkIndex color C.k
  return delta (C.palette.get v) (C.colors.get v) color

/-- The other colour with the least change of the score, the lowest of several, and that
change. -/
def bestColor (C : Coloring G) (v : Fin n) : Option (Fin C.k × Int) :=
  (otherColors (C.colors.get v)).foldl
    (fun best color =>
      let d := delta (C.palette.get v) (C.colors.get v) color
      match best with
      | none => some (color, d)
      | some (_, least) => if d < least then some (color, d) else best)
    none

def bestRecoloring (C : Coloring G) (v : Nat) : Except Error (Option (Fin C.k × Int)) := do
  return C.bestColor (← checkIndex v n)

/-- The number of colours among the neighbours of a vertex. -/
def saturation (C : Coloring G) (v : Nat) : Except Error Nat := do
  return (C.palette.get (← checkIndex v n)).toList.countP (0 < ·)

/-- The vertex with the most neighbours of its own colour, the lowest of several, and their
number; none if there is no conflict. -/
def mostConflicted (C : Coloring G) : Option (Fin n × Nat) :=
  (List.finRange n).foldl
    (fun best v =>
      let here := C.conflictsWith v
      let most := match best with
        | none => 0
        | some (_, most) => most
      if most < here then some (v, here) else best)
    none

/-! ## Mutations -/

/-- A palette after one neighbour has changed its colour. -/
def shiftPalette {k : Nat} (palette : Vector Nat k) (old new : Fin k) : Vector Nat k :=
  let fewer := palette.set old (palette.get old - 1) old.isLt
  fewer.set new (fewer.get new + 1) new.isLt

/-- Gives a vertex a new colour. The palettes of its neighbours change, and with them and its own
colour the marginals of the vertex and of its neighbours. -/
def recolor (C : Coloring G) (v : Fin n) (new : Fin C.k) : Coloring G :=
  let old := C.colors.get v
  if old = new then C
  else
    let colors := C.colors.set v new v.isLt
    let palette := (G.neighbors.get v).foldl
      (fun palette u => palette.set u (shiftPalette (palette.get u) old new) u.isLt) C.palette
    { C with
      colors
      palette
      marginals := (v :: G.neighbors.get v).foldl
        (fun marginals (u : Fin n) =>
          marginals.set u (bestDelta (palette.get u) (colors.get u)) u.isLt)
        C.marginals
      conflicts := C.conflicts + delta (C.palette.get v) old new }

/-- Tries a recolouring given by bare numbers, of which the vertex is looked at first. -/
def applyRecolor (C : Coloring G) (move : Recolor) : Except Error Recolor × Coloring G :=
  match checkIndex move.node n with
  | .error e => (.error e, C)
  | .ok v =>
      match checkIndex move.color C.k with
      | .error e => (.error e, C)
      | .ok color => (.ok ⟨move.node, C.colors.get v⟩, C.recolor v color)

theorem applyRecolor_unchanged {C : Coloring G} {move : Recolor} {e : Error}
    (h : (C.applyRecolor move).1 = .error e) : (C.applyRecolor move).2 = C := by
  unfold applyRecolor at h ⊢
  split
  · rfl
  · next v hnode =>
      split
      · rfl
      · next color hcolor =>
          simp only [hnode, hcolor] at h
          cases h

instance : Tracker (Coloring G) Recolor Nat where
  size _ := n
  score C := C.conflicts
  marginal C v := do return C.marginals.get (← checkIndex v n)
  apply := applyRecolor
  unchanged := applyRecolor_unchanged
  assignment C := C.colors.toList.map Fin.val
  scoreFromScratch C := G.edges.countP fun e => C.colors.get e.1 = C.colors.get e.2
  rebuild C := ofColors G C.colors
  scoreSpan _ := G.edgeCount
  moveText := Recolor.text

end Coloring

end Winners

import Winners.Threshold.Direction
import Winners.Tracker.Coloring

set_option autoImplicit false

/-! # Steepest descent

A polish that makes the best single move over and over, as long as there is one that improves the
score. Of several equally good moves it makes the one of the lowest element. Marginals are
compared as binary64 numbers, the scale on which fitness is compared.

A run without a budget ends because each of its moves improves an integer score: no more moves
fit than the scores of two assignments can lie apart, for colourings than there are conflicts. Scores
that wrap around can improve for ever. A run that goes on for as many moves as there are words of 64
bits is cut off here, though it would not end by itself.
-/

namespace Winners

namespace Descent

variable {τ ν : Type} [Tracker τ Nat ν]

/-- The better of the best element so far and element `e`, which counts only if its marginal
improves the score. -/
def better (d : Direction) (best : Option (Nat × Int)) (e : Nat) (marginal : Int) :
    Option (Nat × Int) :=
  if d.improves (.ofInt marginal) .zero then
    match best with
    | none => some (e, marginal)
    | some (_, most) =>
        if d.improves (.ofInt marginal) (.ofInt most) then some (e, marginal) else best
  else best

/-- The element whose flip improves the score most, with its marginal. -/
def bestElement (d : Direction) (t : τ) : Except Error (Option (Nat × Int)) :=
  (List.range (Tracker.size t)).foldlM
    (fun best e => do return better d best e (← Tracker.marginal t e)) none

/-- Up to `budget` best flips, counted from `count` on. -/
def flips (d : Direction) (count : Nat) : (budget : Nat) → τ → Except Error (Nat × τ)
  | 0, t => .ok (count, t)
  | budget + 1, t => do
      match ← bestElement d t with
      | none => return (count, t)
      | some (e, _) =>
          let (_, t) ← Tracker.mutate t e
          flips d (count + 1) budget t

/-- Flips best elements until no flip improves or the budget is spent; the result counts the
flips. -/
def descend (d : Direction) (budget : Option Nat) (t : τ) : Except Error (Nat × τ) :=
  flips d 0 (budget.getD (Tracker.scoreSpan t)) t

end Descent

namespace Coloring

variable {n : Nat} {G : Graph n}

/-- The recolouring with the fewest conflicts after it, if it has fewer than there are now. The
change of the score comes along. -/
def bestMove (C : Coloring G) : Option (Fin n × Fin C.k × Int) :=
  (List.finRange n).foldl
    (fun best v =>
      match C.bestColor v with
      | none => best
      | some (color, d) =>
          let least := match best with
            | none => 0
            | some (_, _, least) => least
          if d < least then some (v, color, d) else best)
    none

/-- Up to `budget` best recolourings, counted from `count` on. -/
def recolorings (count : Nat) : (budget : Nat) → Coloring G → Nat × Coloring G
  | 0, C => (count, C)
  | budget + 1, C =>
      match C.bestMove with
      | none => (count, C)
      | some (v, color, _) => recolorings (count + 1) budget (C.recolor v color)

/-- Makes the best recolouring until none lowers the number of conflicts or the budget is spent;
the result counts the recolourings. -/
def descend (budget : Option Nat) (C : Coloring G) : Nat × Coloring G :=
  recolorings 0 (budget.getD C.conflicts.toNat) C

end Coloring

end Winners

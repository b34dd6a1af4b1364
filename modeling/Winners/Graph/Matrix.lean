import Winners.Graph.Basic
import Winners.Text.Blank

set_option autoImplicit false

/-! # Adjacency matrices

A graph is read from a square of the characters `0` and `1`, symmetric and with zeros on the
diagonal. Each line is a row; blanks within a line and lines without entries are skipped. Of
several faults the one in the topmost faulty row is reported, and only when all rows are in
order the first pair of entries that no graph can have.
-/

namespace Winners.Graph

/-- Puts a character in front of the rows that follow it: a line break starts a new row, a blank
is skipped, and any other character is the first entry of the row it stands in. -/
def addEntry (c : Char) (rows : List (List Char)) : List (List Char) :=
  if c = '\n' then [] :: rows
  else if isBlank c then rows
  else
    match rows with
    | [] => [[c]]
    | row :: rest => (c :: row) :: rest

/-- The entries of each line that has any. -/
def matrixRows (text : String) : List (List Char) :=
  (text.toList.foldr addEntry [[]]).filter (!·.isEmpty)

/-- A row of `n` entries as bits. -/
def matrixRow (n row : Nat) (entries : Array Char) : Except MatrixFault (Vector Bool n) :=
  if h : entries.size = n then
    match entries.findFinIdx? fun c => c ≠ '0' && c ≠ '1' with
    | some col => .error (.invalidChar row col entries[col])
    | none => .ok (Vector.ofFn fun col => entries[col.cast h.symm] == '1')
  else .error (.notSquare row n entries.size)

/-- The first fault of row `i` on or right of the diagonal. -/
def rowFault? {n : Nat} (M : Vector (Vector Bool n) n) (i : Fin n) : Option MatrixFault :=
  if (M.get i).get i then some (.selfLoop i)
  else ((List.finRange n).drop (i + 1)).findSome? fun (j : Fin n) =>
    if (M.get i).get j ≠ (M.get j).get i then some (.notSymmetric i j) else none

/-- The graph of a matrix of bits. -/
def ofMatrix {n : Nat} (M : Vector (Vector Bool n) n) : Except MatrixFault (Graph n) :=
  match (List.finRange n).findSome? (rowFault? M) with
  | some fault => .error fault
  | none => .ok (ofPairs ((pairRows n).flatten.filter fun e => (M.get e.1).get e.2))

/-- The graph of the adjacency matrix written in `text`. -/
def parseMatrix (text : String) : Except MatrixFault ((n : Nat) × Graph n) := do
  let rows := ((matrixRows text).map List.toArray).toArray
  if rows.isEmpty then throw .empty
  let M ← (Vector.finRange rows.size).mapM fun (i : Fin rows.size) =>
    matrixRow rows.size i rows[i]
  return ⟨rows.size, ← ofMatrix M⟩

/-- The graph of a matrix file, from its path and what reading it gave: its bytes, or the reason
why they could not be read. -/
def ofFile (path : String) (content : Except String ByteArray) :
    Except MatrixFault ((n : Nat) × Graph n) :=
  match content with
  | .error reason => .error (.unreadable path reason)
  | .ok bytes =>
      match String.fromUTF8? bytes with
      | none => .error (.unreadable path "stream did not contain valid UTF-8")
      | some text => parseMatrix text

end Winners.Graph

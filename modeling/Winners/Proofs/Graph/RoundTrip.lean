import Winners.Proofs.Graph.Grammar
import Mathlib.Data.Finset.Dedup
import Mathlib.Data.Sym.Sym2

set_option autoImplicit false

/-! # Graphs round-trip

A simple graph is told by its edges (`Simple.eq_of_adjacent`), so whatever is read with the edges of
a graph is that graph. Two ways of writing a graph are read back here.

An edge list counts as the set of its unordered pairs (`unordered`). A list is taken for a graph
just when its pairs are the edges of the graph, each of them in any place, either way round and any
number of times.

A matrix is a text whose lines spell the rows of the graph (`matrixOf`). `LaidOut` is the freedom in
writing it: gaps of spaces and tabs in front of, between and behind the entries, lines of gaps
alone, and both kinds of line ends, of which the last may be left out.
-/

namespace Winners.Graph

variable {n : Nat} {G H : Graph n}

/-- Simple graphs with the same edges have the same lists. -/
theorem Simple.eq_of_adjacent (hG : G.Simple) (hH : H.Simple)
    (h : ∀ u v, G.Adjacent u v ↔ H.Adjacent u v) : G = H := by
  have hlists : G.neighbors = H.neighbors := by
    apply Patch.ext_get
    intro u
    exact eq_of_ascending (hG.ascending u) (hH.ascending u) (h u)
  exact congrArg Graph.mk hlists

/-! ## Edge lists -/

/-- The unordered pairs of an edge list. -/
def unordered (list : List (Nat × Nat)) : Finset (Sym2 Nat) :=
  (list.map fun p => s(p.1, p.2)).toFinset

theorem mem_unordered {list : List (Nat × Nat)} {a b : Nat} :
    s(a, b) ∈ unordered list ↔ (a, b) ∈ list ∨ (b, a) ∈ list := by
  rw [unordered, List.mem_toFinset, List.mem_map]
  constructor
  · rintro ⟨⟨c, d⟩, hmem, heq⟩
    rcases Sym2.eq_iff.mp heq with ⟨rfl, rfl⟩ | ⟨rfl, rfl⟩
    · exact Or.inl hmem
    · exact Or.inr hmem
  · rintro (hmem | hmem)
    · exact ⟨_, hmem, rfl⟩
    · exact ⟨_, hmem, Sym2.eq_swap⟩

theorem mem_map_ends {pairs : List (Fin n × Fin n)} {u v : Fin n} :
    (u.val, v.val) ∈ pairs.map ends ↔ (u, v) ∈ pairs := by
  simp [ends, Fin.val_inj]

/-- The pairs of a list are the edges of the graph that it is taken for. -/
theorem mem_unordered_of_ofEdges {list : List (Nat × Nat)} (h : ofEdges n list = .ok G)
    {a b : Nat} : s(a, b) ∈ unordered list ↔ ∃ u v, u.val = a ∧ v.val = b ∧ G.Adjacent u v := by
  obtain ⟨pairs, rfl, hne, rfl⟩ := ofEdges_eq_ok.mp h
  rw [mem_unordered]
  constructor
  · rintro (hmem | hmem)
    · obtain ⟨e, he, heq⟩ := List.mem_map.mp hmem
      cases heq
      exact ⟨e.1, e.2, rfl, rfl, (adjacent_ofPairs hne).mpr (Or.inl he)⟩
    · obtain ⟨e, he, heq⟩ := List.mem_map.mp hmem
      cases heq
      exact ⟨e.2, e.1, rfl, rfl, (adjacent_ofPairs hne).mpr (Or.inr he)⟩
  · rintro ⟨u, v, rfl, rfl, hadj⟩
    rw [mem_map_ends, mem_map_ends]
    exact (adjacent_ofPairs hne).mp hadj

/-- A graph is made of its own edges. -/
theorem ofEdges_edges (hG : G.Simple) : ofEdges n (G.edges.map ends) = .ok G := by
  have hne : ∀ e ∈ G.edges, e.1 ≠ e.2 := fun e he => ne_of_lt (mem_edges.mp he).1
  refine ofEdges_eq_ok.mpr ⟨G.edges, rfl, hne, ?_⟩
  apply (simple_ofPairs hne).eq_of_adjacent hG
  intro u v
  rw [adjacent_ofPairs hne, mem_edges, mem_edges, hG.adjacent_comm (u := v), ← or_and_right]
  exact and_iff_right_of_imp fun h => lt_or_gt_of_ne (hG.ne_of_adjacent h)

theorem exists_ofEdges {list : List (Nat × Nat)}
    (h : ∀ p ∈ list, p.1 < n ∧ p.2 < n ∧ p.1 ≠ p.2) : ∃ H, ofEdges n list = .ok H := by
  have hpairs : ∃ pairs : List (Fin n × Fin n), list = pairs.map ends ∧ ∀ e ∈ pairs, e.1 ≠ e.2 := by
    induction list with
    | nil => exact ⟨[], rfl, List.forall_mem_nil _⟩
    | cons p list ih =>
        obtain ⟨⟨hfst, hsnd, hne⟩, hlist⟩ := List.forall_mem_cons.mp h
        obtain ⟨pairs, rfl, hpairs⟩ := ih hlist
        exact ⟨(⟨p.1, hfst⟩, ⟨p.2, hsnd⟩) :: pairs, rfl,
          List.forall_mem_cons.mpr ⟨fun heq => hne (Fin.val_eq_of_eq heq), hpairs⟩⟩
  obtain ⟨pairs, hlist, hne⟩ := hpairs
  exact ⟨ofPairs pairs, ofEdges_eq_ok.mpr ⟨pairs, hlist, hne, rfl⟩⟩

/-- **A list is taken for a graph** just when its pairs are the edges of the graph. -/
theorem ofEdges_eq_ok_iff_unordered (hG : G.Simple) {list : List (Nat × Nat)} :
    ofEdges n list = .ok G ↔ unordered list = unordered (G.edges.map ends) := by
  constructor
  · intro h
    ext e
    induction e with
    | h a b => rw [mem_unordered_of_ofEdges h, mem_unordered_of_ofEdges (ofEdges_edges hG)]
  · intro h
    have hmem : ∀ {a b}, s(a, b) ∈ unordered list ↔
        ∃ u v, u.val = a ∧ v.val = b ∧ G.Adjacent u v := by
      rw [h]
      exact mem_unordered_of_ofEdges (ofEdges_edges hG)
    -- every pair of the list is an edge of `G`, so none is refused
    have hvalid : ∀ p ∈ list, p.1 < n ∧ p.2 < n ∧ p.1 ≠ p.2 := by
      intro p hp
      obtain ⟨u, v, hu, hv, hadj⟩ := hmem.mp (mem_unordered.mpr (Or.inl hp))
      rw [← hu, ← hv]
      exact ⟨u.isLt, v.isLt, fun heq => hG.ne_of_adjacent hadj (Fin.ext heq)⟩
    obtain ⟨H, hH⟩ := exists_ofEdges hvalid
    have hsame : H = G := by
      apply (simple_ofEdges hH).eq_of_adjacent hG
      intro u v
      have huv := (mem_unordered_of_ofEdges hH).symm.trans (hmem (a := u) (b := v))
      simpa [Fin.val_inj] using huv
    rw [hH, hsame]

/-! ## Matrices -/

/-- The rows of the adjacency matrix of a graph. -/
def matrixOf (G : Graph n) : List (List Char) :=
  (List.finRange n).map fun u => (List.finRange n).map fun v => digit (decide (G.Adjacent u v))

theorem entryAt_matrixOf (u v : Fin n) :
    entryAt (matrixOf G) u v = some (digit (decide (G.Adjacent u v))) := by
  simp [entryAt, matrixOf]

theorem isBit_digit (b : Bool) : IsBit (digit b) := by
  cases b
  · exact Or.inl rfl
  · exact Or.inr rfl

theorem goodRow_of_mem_matrixOf {row : List Char} (h : row ∈ matrixOf G) : GoodRow n row := by
  obtain ⟨u, -, rfl⟩ := List.mem_map.mp h
  refine ⟨by rw [List.length_map, List.length_finRange], ?_⟩
  intro c hc
  obtain ⟨v, -, rfl⟩ := List.mem_map.mp hc
  exact isBit_digit _

theorem length_matrixOf (G : Graph n) : (matrixOf G).length = n := by
  rw [matrixOf, List.length_map, List.length_finRange]

/-- The bits of a graph, read from its matrix. -/
theorem reads_matrixOf (G : Graph n) :
    Reads (Vector.ofFn fun u => Vector.ofFn fun v => decide (G.Adjacent u v)) (matrixOf G) where
  length := length_matrixOf G
  good row hrow := by
    rw [length_matrixOf]
    exact goodRow_of_mem_matrixOf hrow
  entry u v := by rw [entryAt_matrixOf, Patch.get_ofFn, Patch.get_ofFn]

theorem isMatrix_matrixOf (hG : G.Simple) (hn : 0 < n) : IsMatrix (matrixOf G) where
  nonempty := by rwa [length_matrixOf]
  good := (reads_matrixOf G).good
  diagonal i hi := by
    rw [length_matrixOf] at hi
    have hentry := entryAt_matrixOf (G := G) ⟨i, hi⟩ ⟨i, hi⟩
    rw [decide_eq_false (hG.loopless _)] at hentry
    exact hentry
  symm i j := by
    by_cases hin : i < n ∧ j < n
    · have hij := entryAt_matrixOf (G := G) ⟨i, hin.1⟩ ⟨j, hin.2⟩
      have hji := entryAt_matrixOf (G := G) ⟨j, hin.2⟩ ⟨i, hin.1⟩
      rw [decide_eq_decide.mpr hG.adjacent_comm] at hij
      exact hij.trans hji.symm
    · have hout : n ≤ i ∨ n ≤ j := by omega
      rw [(reads_matrixOf G).entryAt_outside hout, (reads_matrixOf G).entryAt_outside hout.symm]

/-! ## Layouts -/

/-- The characters that may stand between the entries of a line. -/
def isGap (c : Char) : Bool := c == ' ' || c == '\t'

/-- A line with the entries of a row in order, and gaps. -/
def Spells (row line : List Char) : Prop := line.filter (!isGap ·) = row

def LineEnd (ending : List Char) : Prop := ending = ['\n'] ∨ ending = ['\r', '\n']

/-- **The ways to write rows**, each on a line of its own and in order. -/
inductive LaidOut : List (List Char) → List Char → Prop
  /-- The end of the text is on a line without entries. -/
  | lastBlank {line : List Char} (h : Spells [] line) : LaidOut [] line
  | lastRow {row line : List Char} (h : Spells row line) : LaidOut [row] line
  | blankLine (line : List Char) {rows : List (List Char)} {ending text : List Char}
      (h : Spells [] line) (hend : LineEnd ending) (rest : LaidOut rows text) :
      LaidOut rows (line ++ ending ++ text)
  | row (line : List Char) {row : List Char} {rows : List (List Char)} {ending text : List Char}
      (h : Spells row line) (hend : LineEnd ending) (rest : LaidOut rows text) :
      LaidOut (row :: rows) (line ++ ending ++ text)

/-- Entries that a line can be read with. -/
def Visible (row : List Char) : Prop := ∀ c ∈ row, isBlank c = false

theorem visible_nil : Visible [] := fun _ hc => absurd hc List.not_mem_nil

/-- **A line is read as the row that it spells**, whatever its gaps are. -/
theorem foldr_line {row line : List Char} (h : Spells row line) (hrow : Visible row)
    (rows : List (List Char)) : line.foldr addEntry ([] :: rows) = row :: rows := by
  induction line generalizing row with
  | nil =>
      obtain rfl : [] = row := h
      rfl
  | cons c line ih =>
      rw [List.foldr_cons]
      by_cases hgap : isGap c = true
      · have hline : Spells row line := by
          rw [← h, Spells, List.filter_cons_of_neg (by simp [hgap])]
        rw [ih hline hrow]
        have hc : c = ' ' ∨ c = '\t' := by simpa [isGap] using hgap
        rcases hc with rfl | rfl <;> rfl
      · obtain rfl : c :: line.filter (!isGap ·) = row := by
          rw [← h, List.filter_cons_of_pos (by simp [hgap])]
        obtain ⟨hc, hline⟩ := List.forall_mem_cons.mp hrow
        rw [ih rfl hline, addEntry, if_neg, if_neg (Bool.eq_false_iff.mp hc)]
        -- a line break is a blank
        rintro rfl
        cases hc

theorem foldr_lineEnd {ending : List Char} (h : LineEnd ending) (rows : List (List Char)) :
    ending.foldr addEntry rows = [] :: rows := by
  rcases h with rfl | rfl <;> rfl

/-- **Rows are read back from all ways to write them.** -/
theorem matrixRows_of_laidOut {rows : List (List Char)} {text : String}
    (h : LaidOut rows text.toList) (hrows : ∀ row ∈ rows, row ≠ [] ∧ Visible row) :
    matrixRows text = rows := by
  -- a line puts its row in front of the rows of the rest
  have hline : ∀ {row line ending text : List Char}, Spells row line → Visible row →
      LineEnd ending → (line ++ ending ++ text).foldr addEntry [[]] =
        row :: text.foldr addEntry [[]] := by
    intro row line ending text hspells hvisible hend
    rw [List.foldr_append, List.foldr_append, foldr_lineEnd hend, foldr_line hspells hvisible]
  unfold matrixRows
  generalize text.toList = chars at h
  induction h with
  | lastBlank hspells =>
      rw [foldr_line hspells visible_nil]
      rfl
  | lastRow hspells =>
      obtain ⟨hne, hvisible⟩ := hrows _ List.mem_cons_self
      rw [foldr_line hspells hvisible]
      simp [hne]
  | blankLine line hspells hend _ ih =>
      rw [hline hspells visible_nil hend, List.filter_cons_of_neg (by simp)]
      exact ih hrows
  | row line hspells hend _ ih =>
      obtain ⟨⟨hne, hvisible⟩, hrest⟩ := List.forall_mem_cons.mp hrows
      rw [hline hspells hvisible hend, List.filter_cons_of_pos (by simpa using hne), ih hrest]

theorem IsBit.isBlank_eq {c : Char} (h : IsBit c) : isBlank c = false := by
  rcases h with rfl | rfl <;> rfl

theorem matrix_read_back (hG : G.Simple) (hn : 0 < n) {text : String}
    (h : LaidOut (matrixOf G) text.toList) : parseMatrix text = .ok ⟨n, G⟩ := by
  have hrows : rowsOf text = matrixOf G := by
    rw [← matrixRows_eq]
    apply matrixRows_of_laidOut h
    intro row hrow
    obtain ⟨hlength, hbits⟩ := goodRow_of_mem_matrixOf hrow
    refine ⟨?_, fun c hc => (hbits c hc).isBlank_eq⟩
    rintro rfl
    exact absurd hlength hn.ne
  have hmatrix : IsMatrix (rowsOf text) := by
    rw [hrows]
    exact isMatrix_matrixOf hG hn
  -- what is not refused is read with the edges of `G`
  cases hparse : parseMatrix text with
  | error fault => exact absurd hmatrix (firstFault_of_parseMatrix hparse).not_isMatrix
  | ok read =>
      obtain ⟨m, H⟩ := read
      obtain ⟨-, hm, hedges⟩ := isMatrix_of_parseMatrix hparse
      rw [hrows, length_matrixOf] at hm
      subst hm
      have hsame : H = G := by
        apply (simple_parseMatrix hparse).eq_of_adjacent hG
        intro u v
        have huv := hedges u v
        rw [hasEdge_val, hrows, entryAt_matrixOf, Option.some.injEq, digit_eq_one_iff,
          decide_eq_true_iff, decide_eq_true_iff] at huv
        exact huv
      rw [hsame]

/-! ## Main statement -/

/-- **Graphs round-trip.** A constructed graph is read from an edge list just when the unordered
pairs of the list are its edges, and from its matrix in any layout. -/
theorem graph_round_trips {n : Nat} {G : Graph n} (hG : G.Constructed) :
    (∀ list, ofEdges n list = .ok G ↔ unordered list = unordered (G.edges.map ends)) ∧
    ofEdges n (G.edges.map ends) = .ok G ∧
    (0 < n → ∀ text : String, LaidOut (matrixOf G) text.toList →
      parseMatrix text = .ok ⟨n, G⟩) :=
  ⟨fun _ => ofEdges_eq_ok_iff_unordered hG.simple, ofEdges_edges hG.simple,
    fun hn _ => matrix_read_back hG.simple hn⟩

/-- A path of three vertices, from a list that names its edges twice and either way round, and from
a text with gaps, a blank line and both kinds of line ends. -/
theorem graph_round_trips_path :
    ofEdges 3 [(2, 1), (0, 1), (1, 0), (1, 2)] = .ok (path 3) ∧
    parseMatrix "0 1 0\r\n101\n \n\t010" = .ok ⟨3, path 3⟩ := by
  obtain ⟨hlists, -, htexts⟩ := graph_round_trips (.path 3)
  refine ⟨(hlists _).mpr (by decide +kernel), htexts (by decide) _ ?_⟩
  have hrows : matrixOf (path 3) = [['0', '1', '0'], ['1', '0', '1'], ['0', '1', '0']] := by
    decide +kernel
  rw [hrows]
  have hlast : LaidOut [['0', '1', '0']] ['\t', '0', '1', '0'] := .lastRow rfl
  exact .row ['0', ' ', '1', ' ', '0'] rfl (Or.inr rfl) <|
    .row ['1', '0', '1'] rfl (Or.inl rfl) <| .blankLine [' '] rfl (Or.inl rfl) hlast

end Winners.Graph

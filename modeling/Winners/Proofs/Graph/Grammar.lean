import Winners.Proofs.Graph.Queries

set_option autoImplicit false

/-! # The grammar of adjacency matrices

The grammar is said of the rows of a text (`rowsOf`): its lines without their blanks, as far as
anything is left of them. `IsMatrix` says when rows are the adjacency matrix of a graph, and
`FirstFault` names the fault that is reported when they are not. The fault of a row comes before
the faults of pairs of entries, which are looked for when all rows have been read.

Reading is a search for the first fault, first along the rows and then along the pairs on and above
the diagonal, row by row. Rows that have been read are a square of bits (`Reads`), and what the
second search finds in the bits is what there is to be found in the text.
-/

namespace Winners.Graph

/-! ## Rows -/

/-- The lines of a text without their blanks, and without the lines of which nothing is left. -/
def rowsOf (text : String) : List (List Char) :=
  ((text.toList.splitOn '\n').map fun line => line.filter (!isBlank ·)).filter (!·.isEmpty)

theorem foldr_addEntry (cs : List Char) :
    cs.foldr addEntry [[]] = (cs.splitOn '\n').map fun line => line.filter (!isBlank ·) := by
  induction cs with
  | nil => rfl
  | cons c cs ih =>
      have hsplit : (c :: cs).splitOn '\n' =
          if c == '\n' then [] :: cs.splitOn '\n' else (cs.splitOn '\n').modifyHead (c :: ·) :=
        List.splitOnP_cons_eq_if_modifyHead c cs
      rw [List.foldr_cons, ih, hsplit]
      unfold addEntry
      by_cases hbreak : c = '\n'
      · simp [hbreak]
      · -- there is always a line that the character can be put in front of
        obtain ⟨line, lines, hlines⟩ : ∃ line lines, cs.splitOn '\n' = line :: lines :=
          List.exists_cons_of_ne_nil (List.splitOnP_ne_nil _ cs)
        rw [hlines]
        by_cases hblank : isBlank c = true
        · simp [hbreak, hblank]
        · simp [hbreak, hblank]

theorem matrixRows_eq (text : String) : matrixRows text = rowsOf text := by
  rw [matrixRows, foldr_addEntry, rowsOf]

/-- The entry in a row and a column, if there is one. -/
def entryAt (rows : List (List Char)) (i j : Nat) : Option Char := rows[i]?.bind (·[j]?)

/-! ## The grammar -/

def IsBit (c : Char) : Prop := c = '0' ∨ c = '1'

/-- A row of the right length, of zeros and ones. -/
structure GoodRow (n : Nat) (entries : List Char) : Prop where
  length : entries.length = n
  bits : ∀ c ∈ entries, IsBit c

/-- **The grammar.** -/
structure IsMatrix (rows : List (List Char)) : Prop where
  nonempty : 0 < rows.length
  good : ∀ entries ∈ rows, GoodRow rows.length entries
  diagonal : ∀ i < rows.length, entryAt rows i i = some '0'
  symm : ∀ i j, entryAt rows i j = entryAt rows j i

/-- The fault of row `i`. A wrong length is reported whatever the entries are. -/
inductive RowFault (n i : Nat) (entries : List Char) : MatrixFault → Prop
  | notSquare (h : entries.length ≠ n) : RowFault n i entries (.notSquare i n entries.length)
  | invalidChar {j : Nat} {c : Char} (length : entries.length = n) (hc : entries[j]? = some c)
      (h : ¬IsBit c) (first : ∀ j' < j, ∀ c', entries[j']? = some c' → IsBit c') :
      RowFault n i entries (.invalidChar i j c)

/-- The fault of a pair of entries on or above the diagonal. -/
inductive PairFault (rows : List (List Char)) : Nat → Nat → MatrixFault → Prop
  | selfLoop {i : Nat} (h : entryAt rows i i = some '1') : PairFault rows i i (.selfLoop i)
  | notSymmetric {i j : Nat} (hij : i < j) (h : entryAt rows i j ≠ entryAt rows j i) :
      PairFault rows i j (.notSymmetric i j)

/-- **The fault that is reported**: that there are no rows, or the fault of the topmost row that has
one, or, if no row has one, that of the first pair in lexicographic order that has one. -/
inductive FirstFault (rows : List (List Char)) : MatrixFault → Prop
  | empty (h : rows = []) : FirstFault rows .empty
  | row {i : Nat} {entries : List Char} {fault : MatrixFault} (hrow : rows[i]? = some entries)
      (h : RowFault rows.length i entries fault)
      (first : ∀ i' < i, ∀ entries', rows[i']? = some entries' → GoodRow rows.length entries') :
      FirstFault rows fault
  | pair {i j : Nat} {fault : MatrixFault} (good : ∀ entries ∈ rows, GoodRow rows.length entries)
      (h : PairFault rows i j fault)
      (first : ∀ i' j', Prod.Lex (· < ·) (· < ·) (i', j') (i, j) →
        ∀ fault', ¬PairFault rows i' j' fault') : FirstFault rows fault

/-! ## One fault is the first -/

section

variable {n i : Nat} {entries : List Char} {rows : List (List Char)} {fault fault' : MatrixFault}

theorem RowFault.not_goodRow (h : RowFault n i entries fault) : ¬GoodRow n entries := by
  intro hgood
  cases h with
  | notSquare hlength => exact hlength hgood.length
  | invalidChar _ hc hbad _ => exact hbad (hgood.bits _ (List.mem_of_getElem? hc))

theorem RowFault.unique (h : RowFault n i entries fault) (h' : RowFault n i entries fault') :
    fault = fault' := by
  cases h with
  | notSquare hlength =>
      cases h' with
      | notSquare _ => rfl
      | invalidChar hlength' _ _ _ => exact absurd hlength' hlength
  | @invalidChar j c hlength hc hbad hfirst =>
      cases h' with
      | notSquare hlength' => exact absurd hlength hlength'
      | @invalidChar j' c' _ hc' hbad' hfirst' =>
          have hj : j = j' := eq_of_first (P := fun j => ∃ c, entries[j]? = some c ∧ ¬IsBit c)
            ⟨c, hc, hbad⟩ ⟨c', hc', hbad'⟩
            (fun x hlt ⟨d, hd, hwrong⟩ => hwrong (hfirst x hlt d hd))
            (fun x hlt ⟨d, hd, hwrong⟩ => hwrong (hfirst' x hlt d hd))
          subst hj
          rw [hc] at hc'
          cases hc'
          rfl

theorem PairFault.unique {j : Nat} (h : PairFault rows i j fault)
    (h' : PairFault rows i j fault') : fault = fault' := by
  cases h with
  | selfLoop _ =>
      cases h' with
      | selfLoop _ => rfl
      | notSymmetric hlt _ => exact absurd hlt (lt_irrefl i)
  | notSymmetric hlt _ =>
      cases h' with
      | selfLoop _ => exact absurd hlt (lt_irrefl i)
      | notSymmetric _ _ => rfl

theorem not_pairFault_nil {j : Nat} : ¬PairFault [] i j fault := by
  intro h
  cases h with
  | selfLoop hone => cases hone
  | notSymmetric _ hne => exact hne rfl

theorem FirstFault.not_isMatrix (h : FirstFault rows fault) : ¬IsMatrix rows := by
  rintro ⟨hpos, hgood, hdiagonal, hsymm⟩
  cases h with
  | empty hrows =>
      rw [hrows] at hpos
      exact absurd hpos (lt_irrefl 0)
  | row hrow hfault _ => exact hfault.not_goodRow (hgood _ (List.mem_of_getElem? hrow))
  | @pair i j _ _ hfault _ =>
      cases hfault with
      | selfLoop hone =>
          -- an entry on the diagonal is in the square, and there it is a zero
          have hlt : i < rows.length := by
            by_contra hge
            rw [entryAt, List.getElem?_eq_none (Nat.not_lt.mp hge)] at hone
            cases hone
          rw [hdiagonal i hlt] at hone
          cases hone
      | notSymmetric _ hne => exact hne (hsymm i j)

/-- **No text has two first faults.** -/
theorem FirstFault.unique (h : FirstFault rows fault) (h' : FirstFault rows fault') :
    fault = fault' := by
  cases h with
  | empty hrows =>
      subst hrows
      cases h' with
      | empty _ => rfl
      | row hrow _ _ => cases hrow
      | pair _ hfault _ => exact absurd hfault not_pairFault_nil
  | @row i entries _ hrow hfault hfirst =>
      cases h' with
      | empty hrows =>
          subst hrows
          cases hrow
      | @row i' entries' _ hrow' hfault' hfirst' =>
          have hi : i = i' := eq_of_first
            (P := fun i => ∃ entries, rows[i]? = some entries ∧ ¬GoodRow rows.length entries)
            ⟨entries, hrow, hfault.not_goodRow⟩ ⟨entries', hrow', hfault'.not_goodRow⟩
            (fun x hlt ⟨line, hline, hbad⟩ => hbad (hfirst x hlt line hline))
            (fun x hlt ⟨line, hline, hbad⟩ => hbad (hfirst' x hlt line hline))
          subst hi
          rw [hrow] at hrow'
          cases hrow'
          exact hfault.unique hfault'
      | pair hgood _ _ =>
          exact absurd (hgood entries (List.mem_of_getElem? hrow)) hfault.not_goodRow
  | @pair i j _ hgood hfault hfirst =>
      cases h' with
      | empty hrows =>
          subst hrows
          exact absurd hfault not_pairFault_nil
      | row hrow' hfault' _ =>
          exact absurd (hgood _ (List.mem_of_getElem? hrow')) hfault'.not_goodRow
      | @pair i' j' _ _ hfault' hfirst' =>
          have hpair : (i, j) = (i', j') := eq_of_first (r := Prod.Lex (· < ·) (· < ·))
            (P := fun p => ∃ fault, PairFault rows p.1 p.2 fault) ⟨_, hfault⟩ ⟨_, hfault'⟩
            (fun p hlt ⟨fault, hp⟩ => hfirst p.1 p.2 hlt fault hp)
            (fun p hlt ⟨fault, hp⟩ => hfirst' p.1 p.2 hlt fault hp)
          cases hpair
          exact hfault.unique hfault'

end

/-! ## Reading a row -/

/-- The digit of a bit. -/
def digit (b : Bool) : Char := if b then '1' else '0'

theorem digit_eq_iff {b b' : Bool} : digit b = digit b' ↔ b = b' := by
  cases b <;> cases b' <;> decide

theorem digit_eq_one_iff {b : Bool} : digit b = '1' ↔ b = true := by
  cases b <;> decide

theorem IsBit.digit_eq {c : Char} (h : IsBit c) : digit (c == '1') = c := by
  rcases h with rfl | rfl <;> decide

section

variable {n i : Nat} {entries : List Char}

theorem rowFault_of_matrixRow {fault : MatrixFault}
    (h : matrixRow n i entries.toArray = .error fault) : RowFault n i entries fault := by
  unfold matrixRow at h
  split at h
  · next hlength =>
      split at h
      · next j hj =>
          cases h
          obtain ⟨hbad, hfirst⟩ := Array.findFinIdx?_eq_some_iff.mp hj
          refine .invalidChar hlength (by simp) (by simpa [IsBit] using hbad) ?_
          intro j' hj' c' hc'
          have hj'' : j' < entries.toArray.size := hj'.trans j.isLt
          have hgood := hfirst ⟨j', hj''⟩ hj'
          obtain ⟨_, hentry⟩ := List.getElem?_eq_some_iff.mp hc'
          simpa [IsBit, hentry, or_iff_not_imp_left] using hgood
      · cases h
  · next hlength =>
      cases h
      exact .notSquare hlength

/-- A row that is read is good, and its bits are what its digits stand for. -/
theorem goodRow_of_matrixRow {bits : Vector Bool n}
    (h : matrixRow n i entries.toArray = .ok bits) :
    GoodRow n entries ∧ ∀ j : Fin n, entries[j.val]? = some (digit (bits.get j)) := by
  unfold matrixRow at h
  split at h
  · next hlength =>
      split at h
      · cases h
      · next hnone =>
          cases h
          have hlength : entries.length = n := hlength
          have hbits : ∀ c ∈ entries, IsBit c := by
            intro c hc
            have hgood := Array.findFinIdx?_eq_none_iff.mp hnone c (by simpa using hc)
            simpa [IsBit, or_iff_not_imp_left] using hgood
          refine ⟨⟨hlength, hbits⟩, ?_⟩
          intro j
          have hj : j.val < entries.length := by
            rw [hlength]
            exact j.isLt
          rw [Patch.get_ofFn, List.getElem?_eq_getElem hj]
          exact congrArg some (hbits _ (List.getElem_mem hj)).digit_eq.symm
  · cases h

end

/-! ## Reading all rows -/

section

variable {rows : List (List Char)} {fault : MatrixFault}

/-- The rows as they are read. -/
def table (rows : List (List Char)) : Array (Array Char) := (rows.map List.toArray).toArray

theorem size_table : (table rows).size = rows.length := by
  simp [table]

theorem exists_row (i : Fin (table rows).size) :
    ∃ entries, rows[i.val]? = some entries ∧ (table rows)[i] = entries.toArray := by
  have hi : i.val < rows.length := by
    rw [← size_table]
    exact i.isLt
  refine ⟨rows[i.val], List.getElem?_eq_getElem hi, ?_⟩
  show (rows.map List.toArray).toArray[i.val] = rows[i.val].toArray
  simp

/-- The bits of all rows. -/
def readRows (table : Array (Array Char)) :
    Except MatrixFault (Vector (Vector Bool table.size) table.size) :=
  (Vector.finRange table.size).mapM fun (i : Fin table.size) => matrixRow table.size i table[i]

theorem parseMatrix_eq (text : String) : parseMatrix text =
    if (table (rowsOf text)).isEmpty then .error .empty
    else readRows (table (rowsOf text)) >>= fun M =>
      ofMatrix M >>= fun G => .ok ⟨(table (rowsOf text)).size, G⟩ := by
  rw [← matrixRows_eq]
  unfold parseMatrix
  dsimp only
  split
  · next h =>
      rw [if_pos (show (table (matrixRows text)).isEmpty = true from h)]
      rfl
  · next h =>
      rw [if_neg (show ¬(table (matrixRows text)).isEmpty = true from h)]
      rfl

/-- **Reading the rows** fails with the fault of the topmost row that has one. -/
theorem firstFault_of_readRows (h : readRows (table rows) = .error fault) :
    FirstFault rows fault := by
  have hfind : (List.finRange (table rows).size).findSome?
      (fun (i : Fin (table rows).size) =>
        failure? (matrixRow (table rows).size i (table rows)[i])) = some fault := by
    rw [← Patch.toList_finRange, ← failure?_vector_mapM]
    exact failure?_eq_some.mpr h
  obtain ⟨i, -, hi, hfirst⟩ :=
    exists_first_of_findSome? (List.pairwise_lt_finRange _) hfind
  obtain ⟨entries, hrow, hentries⟩ := exists_row i
  have hfault : RowFault rows.length i entries fault := by
    rw [← size_table]
    apply rowFault_of_matrixRow
    rw [← hentries]
    exact failure?_eq_some.mp hi
  refine .row hrow hfault ?_
  intro i' hlt entries' hrow'
  have hi' : i' < (table rows).size := hlt.trans i.isLt
  obtain ⟨bits, hbits⟩ :=
    failure?_eq_none.mp (hfirst ⟨i', hi'⟩ (List.mem_finRange _) hlt)
  obtain ⟨entries'', hrow'', hentries''⟩ := exists_row ⟨i', hi'⟩
  rw [hrow'] at hrow''
  cases hrow''
  rw [hentries''] at hbits
  rw [← size_table]
  exact (goodRow_of_matrixRow hbits).1

/-- Bits that have been read from rows. -/
structure Reads {n : Nat} (M : Vector (Vector Bool n) n) (rows : List (List Char)) : Prop where
  length : rows.length = n
  good : ∀ entries ∈ rows, GoodRow rows.length entries
  entry : ∀ i j : Fin n, entryAt rows i j = some (digit ((M.get i).get j))

theorem reads_of_readRows {M : Vector (Vector Bool (table rows).size) (table rows).size}
    (h : readRows (table rows) = .ok M) : Reads M rows := by
  have hrows : ∀ i : Fin (table rows).size, ∃ entries, rows[i.val]? = some entries ∧
      matrixRow (table rows).size i entries.toArray = .ok (M.get i) := by
    intro i
    obtain ⟨entries, hrow, hentries⟩ := exists_row i
    have hread := vector_mapM_eq_ok.mp h i
    rw [Patch.get_finRange, hentries] at hread
    exact ⟨entries, hrow, hread⟩
  refine ⟨size_table.symm, ?_, ?_⟩
  · intro entries hmem
    obtain ⟨i, hi⟩ := List.mem_iff_getElem?.mp hmem
    have hlt : i < (table rows).size := by
      rw [size_table]
      exact (List.getElem?_eq_some_iff.mp hi).1
    obtain ⟨entries', hrow, hread⟩ := hrows ⟨i, hlt⟩
    rw [hi] at hrow
    cases hrow
    rw [← size_table]
    exact (goodRow_of_matrixRow hread).1
  · intro i j
    obtain ⟨entries, hrow, hread⟩ := hrows i
    rw [entryAt, hrow]
    exact (goodRow_of_matrixRow hread).2 j

end

/-! ## Pairs of bits -/

section

variable {n : Nat} {M : Vector (Vector Bool n) n} {rows : List (List Char)} {fault : MatrixFault}

theorem Reads.entryAt_outside (hM : Reads M rows) {i j : Nat} (h : n ≤ i ∨ n ≤ j) :
    entryAt rows i j = none := by
  cases hrow : rows[i]? with
  | none => rw [entryAt, hrow, Option.bind_none]
  | some entries =>
      have hi : i < rows.length := (List.getElem?_eq_some_iff.mp hrow).1
      have hlength : entries.length = rows.length :=
        (hM.good entries (List.mem_of_getElem? hrow)).length
      have hrows : rows.length = n := hM.length
      have hj : entries.length ≤ j := by omega
      rw [entryAt, hrow, Option.bind_some, List.getElem?_eq_none hj]

theorem Reads.selfLoop_iff (hM : Reads M rows) (i : Fin n) :
    entryAt rows i i = some '1' ↔ (M.get i).get i = true := by
  rw [hM.entry, Option.some.injEq, digit_eq_one_iff]

theorem Reads.symm_iff (hM : Reads M rows) (i j : Fin n) :
    entryAt rows i j = entryAt rows j i ↔ (M.get i).get j = (M.get j).get i := by
  rw [hM.entry, hM.entry, Option.some.injEq, digit_eq_iff]

/-- A row of bits without a fault has no faulty pair in the text. -/
theorem Reads.not_pairFault (hM : Reads M rows) {i : Fin n} (h : rowFault? M i = none)
    (j : Nat) : ¬PairFault rows i j fault := by
  obtain ⟨hdiagonal, hsymm⟩ := rowFault?_eq_none h
  intro hfault
  cases hfault with
  | selfLoop hone =>
      rw [hM.selfLoop_iff, hdiagonal] at hone
      cases hone
  | notSymmetric hij hne =>
      rcases Nat.lt_or_ge j n with hj | hj
      · exact hne ((hM.symm_iff i ⟨j, hj⟩).mpr (hsymm ⟨j, hj⟩ hij))
      · rw [hM.entryAt_outside (Or.inr hj), hM.entryAt_outside (Or.inl hj)] at hne
        exact hne rfl

/-- The fault of a row of bits is that of the first faulty pair in the text. -/
theorem Reads.exists_first_pairFault (hM : Reads M rows) {i : Fin n}
    (h : rowFault? M i = some fault) :
    ∃ j, PairFault rows i j fault ∧ ∀ j' < j, ∀ fault', ¬PairFault rows i j' fault' := by
  unfold rowFault? at h
  split at h
  · next hloop =>
      cases h
      refine ⟨i, .selfLoop ((hM.selfLoop_iff i).mpr hloop), ?_⟩
      intro j' hlt fault' hfault
      -- pairs left of the diagonal are not looked at
      cases hfault with
      | selfLoop _ => exact absurd hlt (lt_irrefl _)
      | notSymmetric hgt _ => exact absurd hlt (lt_asymm hgt)
  · next hloop =>
      have hascending : ((List.finRange n).drop (i + 1)).Pairwise (· < ·) :=
        (List.pairwise_lt_finRange n).sublist (List.drop_sublist _ _)
      obtain ⟨j, hj, hfound, hfirst⟩ := exists_first_of_findSome? hascending h
      have hij : i.val < j.val := mem_drop_finRange.mp hj
      split at hfound
      · next hne =>
          cases hfound
          refine ⟨j, .notSymmetric hij fun heq => hne ((hM.symm_iff i j).mp heq), ?_⟩
          intro j' hlt fault' hfault
          have hj' : j' < n := hlt.trans j.isLt
          cases hfault with
          | selfLoop hone => exact hloop ((hM.selfLoop_iff i).mp hone)
          | notSymmetric hij' hne' =>
              have hnone := hfirst ⟨j', hj'⟩ (mem_drop_finRange.mpr hij') hlt
              have hsame : (M.get i).get ⟨j', hj'⟩ = (M.get ⟨j', hj'⟩).get i := by
                by_contra hdiffer
                rw [if_pos hdiffer] at hnone
                cases hnone
              exact hne' ((hM.symm_iff i ⟨j', hj'⟩).mpr hsame)
      · cases hfound

/-- **The search along the pairs** fails with the first faulty one in lexicographic order. -/
theorem Reads.firstFault (hM : Reads M rows) (h : ofMatrix M = .error fault) :
    FirstFault rows fault := by
  unfold ofMatrix at h
  split at h
  · next fault' hfind =>
      cases h
      obtain ⟨i, -, hi, hfirst⟩ := exists_first_of_findSome? (List.pairwise_lt_finRange n) hfind
      obtain ⟨j, hfault, hbefore⟩ := hM.exists_first_pairFault hi
      refine .pair hM.good hfault ?_
      intro i' j' hlex fault'
      cases hlex with
      | left _ _ hlt =>
          have hi' : i' < n := lt_trans hlt i.isLt
          have hnone := hfirst ⟨i', hi'⟩ (List.mem_finRange _) hlt
          exact hM.not_pairFault hnone j'
      | right _ hlt => exact hbefore j' hlt fault'
  · cases h

/-- Bits of which a graph is made have been read from a matrix. -/
theorem Reads.isMatrix (hM : Reads M rows) (hpos : 0 < n) {G : Graph n}
    (h : ofMatrix M = .ok G) : IsMatrix rows where
  nonempty := by
    rw [hM.length]
    exact hpos
  good := hM.good
  diagonal := by
    intro i hi
    rw [hM.length] at hi
    have hzero := (rowFault?_eq_none ((ofMatrix_eq_ok h).1 ⟨i, hi⟩)).1
    have hentry := hM.entry ⟨i, hi⟩ ⟨i, hi⟩
    rw [hzero] at hentry
    exact hentry
  symm := by
    intro i j
    by_cases hin : i < n ∧ j < n
    · exact (hM.symm_iff ⟨i, hin.1⟩ ⟨j, hin.2⟩).mpr (get_get_comm (ofMatrix_eq_ok h).1 _ _)
    · have hout : n ≤ i ∨ n ≤ j := by omega
      rw [hM.entryAt_outside hout, hM.entryAt_outside hout.symm]

/-- The edges of a graph are the ones of the matrix that it is made of. -/
theorem Reads.hasEdge_iff (hM : Reads M rows) {G : Graph n} (h : ofMatrix M = .ok G) (i j : Nat) :
    G.hasEdge i j = true ↔ entryAt rows i j = some '1' := by
  by_cases hin : i < n ∧ j < n
  · have hedge := hasEdge_val (G := G) ⟨i, hin.1⟩ ⟨j, hin.2⟩
    have hentry := hM.entry ⟨i, hin.1⟩ ⟨j, hin.2⟩
    dsimp only at hedge hentry
    rw [hedge, hentry, decide_eq_true_iff, adjacent_of_ofMatrix h, Option.some.injEq,
      digit_eq_one_iff]
  · have hout : n ≤ i ∨ n ≤ j := by omega
    rw [hasEdge_of_outside hout, hM.entryAt_outside hout]
    simp

end

/-! ## Main statement -/

theorem firstFault_of_parseMatrix {text : String} {fault : MatrixFault}
    (h : parseMatrix text = .error fault) : FirstFault (rowsOf text) fault := by
  rw [parseMatrix_eq] at h
  split at h
  · next hempty =>
      cases h
      exact .empty (by simpa [table] using hempty)
  · rcases bind_eq_error.mp h with hrows | ⟨M, hM, h⟩
    · exact firstFault_of_readRows hrows
    · rcases bind_eq_error.mp h with hmatrix | ⟨G, -, h⟩
      · exact (reads_of_readRows hM).firstFault hmatrix
      · cases h

theorem isMatrix_of_parseMatrix {text : String} {n : Nat} {G : Graph n}
    (h : parseMatrix text = .ok ⟨n, G⟩) :
    IsMatrix (rowsOf text) ∧ n = (rowsOf text).length ∧
      ∀ i j, G.hasEdge i j = true ↔ entryAt (rowsOf text) i j = some '1' := by
  rw [parseMatrix_eq] at h
  split at h
  · cases h
  · next hempty =>
      obtain ⟨M, hM, h⟩ := bind_eq_ok.mp h
      obtain ⟨G', hmatrix, h⟩ := bind_eq_ok.mp h
      cases h
      have hreads := reads_of_readRows hM
      have hpos : 0 < (table (rowsOf text)).size := by
        rw [Array.isEmpty_iff_size_eq_zero] at hempty
        exact Nat.pos_of_ne_zero hempty
      exact ⟨hreads.isMatrix hpos hmatrix, hreads.length.symm, hreads.hasEdge_iff hmatrix⟩

/-- **Reading accepts the grammar and reports the first fault of everything else.** -/
theorem matrix_read_by_grammar (text : String) :
    ((∃ n G, parseMatrix text = .ok ⟨n, G⟩) ↔ IsMatrix (rowsOf text)) ∧
    (∀ n (G : Graph n), parseMatrix text = .ok ⟨n, G⟩ → n = (rowsOf text).length ∧
      ∀ i j, G.hasEdge i j = true ↔ entryAt (rowsOf text) i j = some '1') ∧
    (∀ fault, parseMatrix text = .error fault ↔ FirstFault (rowsOf text) fault) := by
  refine ⟨⟨?_, ?_⟩, ?_, ?_⟩
  · rintro ⟨n, G, h⟩
    exact (isMatrix_of_parseMatrix h).1
  · intro hmatrix
    cases h : parseMatrix text with
    | error fault => exact absurd hmatrix (firstFault_of_parseMatrix h).not_isMatrix
    | ok g => exact ⟨g.1, g.2, rfl⟩
  · intro n G h
    exact (isMatrix_of_parseMatrix h).2
  · intro fault
    constructor
    · exact firstFault_of_parseMatrix
    · intro hfault
      cases h : parseMatrix text with
      | error fault' => rw [(firstFault_of_parseMatrix h).unique hfault]
      | ok g => exact absurd (isMatrix_of_parseMatrix h).1 hfault.not_isMatrix

/-- A path of three vertices with blanks, a blank line and both kinds of line ends, and a text each
of whose rows has a fault. -/
theorem matrix_read_by_grammar_lines :
    IsMatrix (rowsOf "0 1 0\r\n101\n\n\t010") ∧
    (∃ G : Graph 3, parseMatrix "0 1 0\r\n101\n\n\t010" = .ok ⟨3, G⟩ ∧ G.hasEdge 2 1 = true) ∧
    FirstFault (rowsOf "012\n1\n00x") (.invalidChar 0 2 '2') := by
  have hpath : parseMatrix "0 1 0\r\n101\n\n\t010" = .ok ⟨3, path 3⟩ := by decide +kernel
  have hfault : parseMatrix "012\n1\n00x" = .error (.invalidChar 0 2 '2') := by decide +kernel
  obtain ⟨haccepts, hgraph, -⟩ := matrix_read_by_grammar "0 1 0\r\n101\n\n\t010"
  refine ⟨haccepts.mp ⟨3, path 3, hpath⟩, ⟨path 3, hpath, ?_⟩, ?_⟩
  · exact ((hgraph 3 (path 3) hpath).2 2 1).mpr (by decide +kernel)
  · exact ((matrix_read_by_grammar "012\n1\n00x").2.2 _).mp hfault

end Winners.Graph

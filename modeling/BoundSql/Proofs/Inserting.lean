import BoundSql.Proofs.Digits
import BoundSql.Proofs.Listing

/-! # The cells of an insert

Rows that name every column once are inserted exactly if all of them have the columns of the first,
in whatever order. Then every cell is bound once, in the place of its row and its column. -/

namespace BoundSql

/-! ## Rows with the same columns -/

namespace Row

variable {row first : Row} {columns : List String}

/-- The rows have the same set of columns. -/
def SameSet (row first : Row) : Prop :=
  ∀ column, column ∈ row.columns ↔ column ∈ first.columns

/-- Equally many columns, all of which are in the first row, are all the columns of that row. -/
theorem sameColumns_iff_sameSet (hrow : row.columns.Nodup) (hfirst : first.columns.Nodup) :
    row.sameColumns first = true ↔ row.SameSet first := by
  rw [sameColumns_iff]
  constructor
  · rintro ⟨hsize, hsubset⟩
    have hlength : first.columns.length ≤ row.columns.length := by
      simpa [columns, size] using Nat.le_of_eq hsize.symm
    have hperm : row.columns.Perm first.columns :=
      (List.subperm_of_subset hrow hsubset).perm_of_length_le hlength
    intro column
    exact hperm.mem_iff
  · intro hsame
    have hperm : row.columns.Perm first.columns :=
      (List.perm_ext_iff_of_nodup hrow hfirst).mpr hsame
    refine ⟨?_, hperm.subset⟩
    simpa [columns, size] using hperm.length_eq

theorem matches_iff_sameSet (hrow : row.columns.Nodup) (hfirst : first.columns.Nodup) :
    row.Matches first ↔ row.SameSet first := by
  rw [matches_iff, sameColumns_iff_sameSet hrow hfirst, and_iff_left_iff_imp]
  intro hsame column hcolumn
  exact contains_iff.mpr ((hsame column).mpr hcolumn)

/-- A row that has the columns has a cell for each. -/
theorem map_some_cells (h : columns ⊆ row.columns) :
    (row.cells columns).map some = columns.map row.get? := by
  induction columns with
  | nil => rfl
  | cons column rest ih =>
      obtain ⟨hcolumn, hrest⟩ := List.cons_subset.mp h
      obtain ⟨value, hvalue⟩ := Option.isSome_iff_exists.mp (contains_iff.mpr hcolumn)
      have hbehind := ih hrest
      rw [cells] at hbehind
      simp [cells, hvalue, hbehind]

theorem length_cells_eq (h : columns ⊆ row.columns) :
    (row.cells columns).length = columns.length := by
  simpa using congrArg List.length (map_some_cells h)

/-- The cells of a row are its values in the order of the first row. -/
theorem cells_perm (h : row.Matches first) (hfirst : first.columns.Nodup) :
    (row.cells first.columns).Perm row.values := by
  have hlength : (row.cells first.columns).length ≤ first.columns.length :=
    Nat.le_of_eq (length_cells_eq h.no_fewer)
  have hvalues := (zip_cells_perm h hfirst).map Prod.snd
  rwa [List.map_snd_zip hlength] at hvalues

end Row

/-! ## Arguments row by row -/

/-- The blocks of equal length that a list is made of are found by their number. -/
theorem take_drop_flatMap {α β : Type} {f : α → List β} {n : Nat} {as : List α}
    (h : ∀ a ∈ as, (f a).length = n) (behind : List β) (i : Nat) (hi : i < as.length) :
    ((as.flatMap f ++ behind).drop (i * n)).take n = f as[i] := by
  induction as generalizing i with
  | nil => simp at hi
  | cons a rest ih =>
      obtain ⟨ha, hrest⟩ := List.forall_mem_cons.mp h
      rw [List.flatMap_cons, List.append_assoc]
      cases i with
      | zero => simp [← ha]
      | succ i =>
          have hsplit : (i + 1) * n = (f a).length + i * n := by
            rw [ha, Nat.succ_mul, Nat.add_comm]
          rw [hsplit, ← List.drop_drop, List.drop_left]
          exact ih hrest i (by simpa using hi)

/-- The arguments of an insert: as many for every row as the first row has columns, in the order of
these, and behind them what the upsert assigns. -/
structure BindsCells (first : Row) (rows : List Row) (upsert : Option Upsert)
    (args : List Value) : Prop where
  cell : ∀ (i j : Nat) (hi : i < rows.length) (hj : j < first.columns.length),
    ∃ value, rows[i].get? first.columns[j] = some value ∧
      args[i * first.columns.length + j]? = some value
  perm : ∀ (i : Nat) (hi : i < rows.length),
    ((args.drop (i * first.columns.length)).take first.columns.length).Perm rows[i].values
  behind : args.drop (rows.length * first.columns.length) = Upsert.values upsert

theorem bindsCells_of_matches {first : Row} {rows : List Row} (upsert : Option Upsert)
    (hfirst : first.columns.Nodup) (hmatches : ∀ row ∈ rows, row.Matches first) :
    BindsCells first rows upsert
      ((rows.flatMap fun row => row.cells first.columns) ++ Upsert.values upsert) := by
  have hlength : ∀ row ∈ rows, (row.cells first.columns).length = first.columns.length :=
    fun row hrow => Row.length_cells_eq (hmatches row hrow).no_fewer
  have hblock (i : Nat) (hi : i < rows.length) :=
    take_drop_flatMap hlength (Upsert.values upsert) i hi
  constructor
  · intro i j hi hj
    have hmatch := hmatches rows[i] (List.getElem_mem hi)
    have hcell := congrArg (·[j]?) (Row.map_some_cells hmatch.no_fewer)
    have hbound := congrArg (·[j]?) (hblock i hi)
    simp only [List.getElem?_map, List.getElem?_eq_getElem hj, Option.map_some] at hcell
    obtain ⟨value, hvalue, hget⟩ := Option.map_eq_some_iff.mp hcell
    refine ⟨value, hget.symm, ?_⟩
    simp only [List.getElem?_take_of_lt hj, List.getElem?_drop] at hbound
    rw [hbound, hvalue]
  · intro i hi
    rw [hblock i hi]
    exact Row.cells_perm (hmatches rows[i] (List.getElem_mem hi)) hfirst
  · have hall : (rows.flatMap fun row => row.cells first.columns).length =
        rows.length * first.columns.length := by
      rw [List.length_flatMap, List.map_eq_replicate_iff.mpr hlength, List.sum_replicate_nat]
    rw [← hall, List.drop_left]

/-! ## The rows that are refused -/

/-- The row at the index is the first one with another set of columns than the first row. -/
def FirstMismatch (first : Row) (rows : List Row) (index : Nat) : Prop :=
  ∃ row, rows[index]? = some row ∧ ¬row.SameSet first ∧
    ∀ earlier ∈ rows.take index, earlier.SameSet first

theorem firstMismatch_of_findIdx? {first : Row} {rows : List Row} {index : Nat}
    (hfirst : first.columns.Nodup) (hrows : ∀ row ∈ rows, row.columns.Nodup)
    (h : (rows.findIdx? fun row => !row.sameColumns first) = some index) :
    FirstMismatch first rows index := by
  obtain ⟨hindex, hdiffers, hearlier⟩ := List.findIdx?_eq_some_iff_getElem.mp h
  have hset (row : Row) (hrow : row ∈ rows) :
      row.sameColumns first = true ↔ row.SameSet first :=
    Row.sameColumns_iff_sameSet (hrows row hrow) hfirst
  refine ⟨rows[index], List.getElem?_eq_getElem hindex, ?_, ?_⟩
  · intro hsame
    rw [(hset _ (List.getElem_mem hindex)).mpr hsame] at hdiffers
    exact absurd hdiffers (by decide)
  · intro earlier hmem
    obtain ⟨j, hj, rfl⟩ := List.mem_take_iff_getElem.mp hmem
    have hsame := hearlier j (by omega)
    exact (hset _ (List.getElem_mem _)).mp (by simpa using hsame)

namespace QueryError

theorem ne_missingColumn {text : String} (h : ¬"insert row is".toList <+: text.toList)
    (column : String) : invalid text ≠ missingColumn column := by
  intro heq
  apply h
  have hwords : "insert row is missing column ".toList =
      "insert row is".toList ++ " missing column ".toList := by
    decide +kernel
  rw [QueryError.invalid.inj heq, String.toList_append, hwords, List.append_assoc]
  exact List.prefix_append _ _

/-- The text for a row that does not match goes on with the number of the row. -/
theorem rowMismatch_ne_missingColumn (index : Nat) (column : String) :
    rowMismatch index ≠ missingColumn column := by
  apply ne_missingColumn
  rintro ⟨rest, htext⟩
  have hnumber : (toString index).toList = Text.decimalDigits index := Nat.toList_repr
  obtain ⟨digit, others, hdigits⟩ := List.exists_cons_of_ne_nil
    (Text.decimalDigits_ne_nil (n := index))
  have hdigit : digit.isDigit = true :=
    Text.isDigit_of_mem_decimalDigits (n := index) digit (by simp [hdigits])
  have hword : "insert row is".toList = "insert row ".toList ++ ['i', 's'] := rfl
  simp only [String.toList_append, hnumber, hdigits, hword, List.append_assoc,
    List.append_cancel_left_eq] at htext
  obtain rfl : 'i' = digit := (List.cons.inj htext).1
  exact absurd hdigit (by decide)

end QueryError

namespace Statement

variable {v : Vocabulary} {s : Scope} {rows : List Row} {mode : InsertMode}
  {upsert : Option Upsert}

theorem insertClause_eq_verbClause :
    insertClause v s rows mode upsert = verbClause v s (some (.insert rows mode)) upsert := by
  rw [verbClause_some, Action.isInsert, Bool.not_true, Bool.and_false]
  rfl

theorem exists_insertClause_iff {word : String} (hmode : v.insertMode mode = .ok word)
    (hrows : ∀ row ∈ rows, row.columns.Nodup) :
    (∃ pieces, insertClause v s rows mode upsert = .ok pieces) ↔
      ∃ first, rows.head? = some first ∧ first.columns ≠ [] ∧ ∀ row ∈ rows, row.SameSet first := by
  rw [(insertClause_decided rows mode upsert).exists_ok_iff]
  cases rows with
  | nil => simp [Row.Tabular]
  | cons first rest =>
      have hfirst := hrows first List.mem_cons_self
      have hset : (∀ row ∈ first :: rest, row.Matches first) ↔
          ∀ row ∈ first :: rest, row.SameSet first :=
        forall₂_congr fun row hrow => Row.matches_iff_sameSet (hrows row hrow) hfirst
      have hspelled : Spelled (v.insertMode mode) := ⟨word, hmode⟩
      simp only [Row.Tabular, hset, hspelled, and_true, List.head?_cons, Option.some.injEq,
        exists_eq_left', Row.columns, ne_eq, List.map_eq_nil_iff]

theorem bindsCells_of_insertClause {d : Dialect} {pieces : List Piece}
    (hrows : ∀ row ∈ rows, row.columns.Nodup)
    (h : insertClause d.toVocabulary s rows mode upsert = .ok pieces) :
    ∃ first, rows.head? = some first ∧ BindsCells first rows upsert (Piece.args d pieces) := by
  have hargs : Piece.args d pieces = insertedCells rows ++ Upsert.values upsert :=
    args_verbClause (insertClause_eq_verbClause ▸ h)
  cases rows with
  | nil => cases h
  | cons first rest =>
      obtain ⟨-, hsame, -, -, hcontains, -⟩ := insertClause_ok.mp h
      have hmatches : ∀ row ∈ first :: rest, row.Matches first := fun row hrow =>
        Row.matches_iff.mpr ⟨hsame row hrow, hcontains row hrow⟩
      refine ⟨first, rfl, ?_⟩
      rw [hargs, insertedCells]
      exact bindsCells_of_matches upsert (hrows first List.mem_cons_self) hmatches

/-- Why rows are not inserted. -/
inductive RowsRefused (rows : List Row) : QueryError → Prop where
  | none (h : rows = []) : RowsRefused rows .noRows
  | empty {first : Row} (h : rows.head? = some first) (hfirst : first.columns = []) :
      RowsRefused rows .noColumns
  | mismatch {first : Row} {index : Nat} (h : rows.head? = some first)
      (hindex : FirstMismatch first rows index) : RowsRefused rows (.rowMismatch index)

theorem RowsRefused.ne_missingColumn {e : QueryError} (h : RowsRefused rows e) (column : String) :
    e ≠ .missingColumn column := by
  cases h with
  | none _ => exact QueryError.ne_missingColumn (by decide) column
  | empty _ _ => exact QueryError.ne_missingColumn (by decide) column
  | mismatch _ _ => exact QueryError.rowMismatch_ne_missingColumn _ column

/-- An insert in a mode that the dialect has fails for its rows only. -/
theorem rowsRefused_of_insertClause {word : String} (hmode : v.insertMode mode = .ok word)
    (hrows : ∀ row ∈ rows, row.columns.Nodup) {e : QueryError}
    (h : insertClause v s rows mode upsert = .error e) : RowsRefused rows e := by
  cases rows with
  | nil =>
      cases h
      exact .none rfl
  | cons first rest =>
      have hfirst := hrows first List.mem_cons_self
      by_cases hempty : first.columns = []
      · rw [insertClause, if_pos (Edit.isEmpty_iff_columns.mpr hempty)] at h
        cases h
        exact .empty rfl hempty
      · have hunset := h
        rw [insertClause, if_neg (mt Edit.isEmpty_iff_columns.mp hempty)] at h
        cases hindex : (first :: rest).findIdx? fun row => !row.sameColumns first with
        | some index =>
            rw [hindex] at h
            cases h
            exact .mismatch rfl (firstMismatch_of_findIdx? hfirst hrows hindex)
        | none =>
            -- All rows have the columns of the first, so that the insert does not fail.
            have hsame := findIdx?_differs_eq_none.mp hindex
            obtain ⟨pieces, hpieces⟩ :
                ∃ pieces, insertClause v s (first :: rest) mode upsert = .ok pieces :=
              (exists_insertClause_iff hmode hrows).mpr ⟨first, rfl, hempty, fun row hrow =>
                (Row.sameColumns_iff_sameSet (hrows row hrow) hfirst).mp (hsame row hrow)⟩
            rw [hpieces] at hunset
            cases hunset

/-- Rows that name every column once are inserted, in a mode that the dialect has and whatever the
upsert is, exactly if there is a first row with a column and all rows have its set of columns. Then
every cell is bound once, in the place of its row and its column in the first row, and behind the
cells stand the values of the upsert. Otherwise the error is that there is no row, that the first
one is empty, or that a row does not match, namely the first that has another set of columns; no
column is ever found missing. -/
theorem insertClause_cells {d : Dialect} {word : String} (hmode : d.insertMode mode = .ok word)
    (hrows : ∀ row ∈ rows, row.columns.Nodup) :
    ((∃ pieces, insertClause d.toVocabulary s rows mode upsert = .ok pieces) ↔
      ∃ first, rows.head? = some first ∧ first.columns ≠ [] ∧ ∀ row ∈ rows, row.SameSet first) ∧
    (∀ pieces, insertClause d.toVocabulary s rows mode upsert = .ok pieces →
      ∃ first, rows.head? = some first ∧ BindsCells first rows upsert (Piece.args d pieces)) ∧
    (∀ e, insertClause d.toVocabulary s rows mode upsert = .error e → RowsRefused rows e) ∧
    ∀ column, insertClause d.toVocabulary s rows mode upsert ≠ .error (.missingColumn column) := by
  have hrefused : ∀ e, insertClause d.toVocabulary s rows mode upsert = .error e →
      RowsRefused rows e := fun e => rowsRefused_of_insertClause hmode hrows
  refine ⟨exists_insertClause_iff hmode hrows, fun pieces => bindsCells_of_insertClause hrows,
    hrefused, ?_⟩
  intro column hmissing
  exact (hrefused _ hmissing).ne_missingColumn column rfl

/-- The second row has its columns in another order, and a column that is set again. -/
def twoUsers : List Row :=
  [.ofList [("id", .int 1), ("name", .string "ann")],
    .ofList [("name", .string "bo"), ("id", .int 2), ("name", .string "bob")]]

theorem insertClause_cells_twoUsers :
    (∀ row ∈ twoUsers, row.columns.Nodup) ∧
    ∃ pieces, insertClause ShippedDialect.mysql.dialect.toVocabulary
        ⟨⟨"users", none⟩, ⟨0⟩, none⟩ twoUsers .ignore
        (some (.assign ⟨[("hits", .int 3)]⟩)) = .ok pieces ∧
      BindsCells (.ofList [("id", .int 1), ("name", .string "ann")]) twoUsers
        (some (.assign ⟨[("hits", .int 3)]⟩)) (Piece.args ShippedDialect.mysql.dialect pieces) ∧
      Piece.args ShippedDialect.mysql.dialect pieces =
        [.int 1, .string "ann", .int 2, .string "bob", .int 3] := by
  have hrows : ∀ row ∈ twoUsers, row.columns.Nodup := by
    intro row hrow
    obtain ⟨entries, rfl⟩ : ∃ entries, row = .ofList entries := by
      rcases List.mem_pair.mp hrow with rfl | rfl <;> exact ⟨_, rfl⟩
    exact (Row.built_ofList entries).nodup_columns
  obtain ⟨pieces, hpieces⟩ : ∃ pieces, insertClause ShippedDialect.mysql.dialect.toVocabulary
      ⟨⟨"users", none⟩, ⟨0⟩, none⟩ twoUsers .ignore (some (.assign ⟨[("hits", .int 3)]⟩)) =
        .ok pieces := ⟨_, rfl⟩
  have hmode : ShippedDialect.mysql.dialect.insertMode .ignore = .ok "INSERT IGNORE INTO" := rfl
  obtain ⟨first, hfirst, hcells⟩ := (insertClause_cells hmode hrows).2.1 pieces hpieces
  cases hfirst
  refine ⟨hrows, pieces, hpieces, hcells, ?_⟩
  cases hpieces
  rfl

end Statement

end BoundSql

import BoundSql.Proofs.AliasScoping
import BoundSql.Proofs.Counting
import BoundSql.Proofs.Lowering.Mentions
import BoundSql.Proofs.Reloading
import BoundSql.Proofs.Texts
import BoundSql.Proofs.WellFormed
import Mathlib.Data.List.Perm.Subperm

/-! # The column lists of a statement

A query that is built names every column of a row once, assigns something on an upsert, and counts
no negative number of rows. A query that is read back need not: the statements of such a query have
these properties as far as the query has them itself. -/

namespace BoundSql

namespace Piece

/-! ## Reading columns off pieces -/

/-- The piece is the given word. -/
def isWord (text : String) : Piece → Bool
  | word other => other == text
  | _ => false

/-- The piece is a value that a column can take. -/
def isValue : Piece → Bool
  | slot _ | proposed _ => true
  | _ => false

/-- The piece is a column without its table. -/
def isName : Piece → Bool
  | name _ => true
  | _ => false

/-- The pieces begin with `=` and a value. -/
def takesValue : List Piece → Bool
  | equals :: value :: _ => equals.isWord "=" && value.isValue
  | _ => false

/-- The pieces that a value is assigned to. -/
def assigned : List Piece → List Piece
  | [] => []
  | piece :: rest => if takesValue rest then piece :: assigned rest else assigned rest

/-- The columns without their tables that stand before VALUES. -/
def listed (pieces : List Piece) : List Piece :=
  (mentions (pieces.takeWhile fun piece => !piece.isWord "VALUES")).filter isName

/-- Assignments are read one part after the other, unless one stands where the parts meet. -/
theorem assigned_append (left : List Piece) {right : List Piece}
    (hright : ∀ piece ∈ right.head?, piece.isWord "=" = false ∧ piece.isValue = false) :
    assigned (left ++ right) = assigned left ++ assigned right := by
  have htakes (rest : List Piece) : takesValue (rest ++ right) = takesValue rest := by
    rcases rest with _ | ⟨piece, _ | ⟨next, rest⟩⟩
    · rcases right with _ | ⟨piece, _ | ⟨next, right⟩⟩
      · rfl
      · rfl
      · simp [takesValue, (hright piece rfl).1]
    · rcases right with _ | ⟨next, right⟩
      · rfl
      · simp [takesValue, (hright next rfl).2]
    · rfl
  induction left with
  | nil => rfl
  | cons piece rest ih =>
      rw [List.cons_append, assigned, assigned, htakes, ih]
      split <;> rfl

/-- Where no `=` stands nothing is assigned. -/
theorem assigned_eq_nil {pieces : List Piece} (h : ∀ piece ∈ pieces, piece.isWord "=" = false) :
    assigned pieces = [] := by
  induction pieces with
  | nil => rfl
  | cons piece rest ih =>
      obtain ⟨-, hrest⟩ := List.forall_mem_cons.mp h
      have htakes : takesValue rest = false := by
        rcases rest with _ | ⟨equals, _ | ⟨value, rest⟩⟩
        · rfl
        · rfl
        · simp [takesValue, hrest equals List.mem_cons_self]
      rw [assigned, htakes]
      exact ih hrest

section

variable {α : Type} {column value : α → Piece} (hvalue : ∀ a, (value a).isValue = true)

/-- A list of assignments takes no value for a word before it. -/
theorem assigned_word_cons (lead : String) (as : List α) :
    assigned (.word lead :: separated ", " (as.map fun a => [column a, .word "=", value a])) =
      assigned (separated ", " (as.map fun a => [column a, .word "=", value a])) := by
  rcases as with _ | ⟨a, _ | ⟨next, rest⟩⟩
  · rfl
  · simp [assigned, takesValue, isValue]
  · simp [assigned, takesValue, isValue]

include hvalue in
/-- A list of assignments assigns to its columns. -/
theorem assigned_separated (as : List α) :
    assigned (separated ", " (as.map fun a => [column a, .word "=", value a])) =
      as.map column := by
  have hpart (a : α) : assigned [column a, .word "=", value a] = [column a] := by
    simp [assigned, takesValue, isWord, hvalue]
  induction as with
  | nil => rfl
  | cons a rest ih =>
      cases rest with
      | nil => simpa using hpart a
      | cons next rest =>
          rw [List.map_cons, List.map_cons, separated_cons_cons,
            assigned_append _ (by simp [isWord, isValue]), hpart]
          exact congrArg (column a :: ·) ((assigned_word_cons ", " (next :: rest)).trans ih)

end

theorem forall_mem_bracketed {p : Piece → Prop} {body : List Piece} (hopen : p (.word "("))
    (hclose : p (.word ")")) (h : ∀ piece ∈ body, p piece) : ∀ piece ∈ bracketed body, p piece := by
  simpa [bracketed, or_imp, forall_and] using ⟨hopen, h, hclose⟩

theorem forall_mem_separated {p : Piece → Prop} {glue : String} {parts : List (List Piece)}
    (hglue : p (.word glue)) (h : ∀ part ∈ parts, ∀ piece ∈ part, p piece) :
    ∀ piece ∈ separated glue parts, p piece := by
  induction parts with
  | nil => simp [separated]
  | cons part rest ih =>
      obtain ⟨hpart, hrest⟩ := List.forall_mem_cons.mp h
      cases rest with
      | nil => simpa using hpart
      | cons next rest =>
          rw [separated_cons_cons, List.forall_mem_append, List.forall_mem_cons]
          exact ⟨hpart, hglue, ih hrest⟩

end Piece

/-! ## The lists of verbs -/

namespace Statement

open Piece (bracketed separated assigned listed isWord)

variable {v : Vocabulary} {s : Scope} {pieces : List Piece}

theorem assigned_assignments (column : String → Piece) (entries : List (String × Value)) :
    assigned (separated ", "
      (entries.map fun (name, value) => assignment (column name) value)) =
        entries.map (column ∘ Prod.fst) :=
  Piece.assigned_separated (fun _ => rfl) entries

/-- The columns that an upsert assigns. -/
def upsertColumns (columns : List String) : Upsert → List String
  | .proposed => columns
  | .assign assignments => assignments.columns

/-- The assignments of an upsert. -/
def upsertAssignments (columns : List String) : Upsert → List Piece
  | .proposed =>
    separated ", " (columns.map fun column => [.name column, .word "=", .proposed column])
  | .assign assignments =>
    separated ", " (assignments.entries.map fun (column, value) => assignment (.name column) value)

theorem upsertClause_some (upsert : Upsert) (columns : List String) :
    upsertClause v (some upsert) columns = .word v.upsert :: upsertAssignments columns upsert := by
  cases upsert <;> rfl

theorem assigned_upsertAssignments (upsert : Upsert) (columns : List String) :
    assigned (upsertAssignments columns upsert) = (upsertColumns columns upsert).map .name := by
  cases upsert with
  | proposed => exact Piece.assigned_separated (fun _ => rfl) columns
  | assign assignments =>
      rw [upsertColumns, Row.columns, List.map_map]
      exact assigned_assignments Piece.name assignments.entries

theorem assigned_upsertClause (upsert : Option Upsert) (columns : List String) :
    assigned (upsertClause v upsert columns) =
      (upsert.elim [] (upsertColumns columns)).map .name := by
  rcases upsert with _ | _ | assignments
  · rfl
  · exact (Piece.assigned_word_cons v.upsert columns).trans
      (assigned_upsertAssignments .proposed columns)
  · exact (Piece.assigned_word_cons v.upsert assignments.entries).trans
      (assigned_upsertAssignments (.assign assignments) columns)

/-- An insert of a shipped dialect up to its columns. -/
def insertedColumns (mode : InsertMode) (t : Table) (columns : List String) : List Piece :=
  .word (Vocabulary.insertWord mode) :: .table t ::
    bracketed (separated ", " (columns.map fun c => [.name c]))

/-- An insert of a shipped dialect up to its rows. -/
def insertedRows (mode : InsertMode) (t : Table) (columns : List String) (rows : List Row) :
    List Piece :=
  insertedColumns mode t columns ++ .word "VALUES" :: separated ", " (rows.map (tuple columns))

variable {k : ShippedDialect} {mode : InsertMode} {t : Table} {columns : List String}
  {rows : List Row} {upsert : Option Upsert}

theorem insertClause_shipped
    (h : insertClause k.dialect.toVocabulary s rows mode upsert = .ok pieces) :
    ∃ first rest, rows = first :: rest ∧ first.columns ≠ [] ∧ (∀ row ∈ rows, row.Matches first) ∧
      pieces = insertedRows mode s.table first.columns rows ++
        upsertClause k.dialect.toVocabulary upsert first.columns := by
  cases rows with
  | nil => cases h
  | cons first rest =>
      obtain ⟨hfirst, hsame, word, hword, hcontains, rfl⟩ := insertClause_ok.mp h
      rw [k.insertMode_eq] at hword
      obtain rfl := Except.ok.inj hword
      have hcolumns : first.columns ≠ [] := fun hnone => by
        simp [Edit.isEmpty_iff_columns.mpr hnone] at hfirst
      have hmatches : ∀ row ∈ first :: rest, row.Matches first := fun row hrow =>
        Row.matches_iff.mpr ⟨hsame row hrow, hcontains row hrow⟩
      exact ⟨first, rest, rfl, hcolumns, hmatches, by simp [insertedRows, insertedColumns]⟩

/-- The words of an insert up to its rows, but for VALUES. -/
def insertWords : List String :=
  ["INSERT INTO", "INSERT IGNORE INTO", "REPLACE INTO", "(", ")", ", "]

section

variable {p : Piece → Prop} (hwords : ∀ text ∈ insertWords, p (.word text))

include hwords

theorem forall_mem_singles {α : Type} {single : α → Piece} (hsingle : ∀ a, p (single a))
    (as : List α) : ∀ piece ∈ bracketed (separated ", " (as.map fun a => [single a])), p piece := by
  refine Piece.forall_mem_bracketed (hwords _ (by decide)) (hwords _ (by decide))
    (Piece.forall_mem_separated (hwords _ (by decide)) ?_)
  simpa using fun a _ => hsingle a

theorem forall_mem_insertedColumns (htable : p (.table t)) (hname : ∀ c, p (.name c)) :
    ∀ piece ∈ insertedColumns mode t columns, p piece := by
  have hmode : p (.word (Vocabulary.insertWord mode)) := hwords _ (by cases mode <;> decide)
  rw [insertedColumns, List.forall_mem_cons, List.forall_mem_cons]
  exact ⟨hmode, htable, forall_mem_singles hwords hname columns⟩

theorem forall_mem_insertedRows (hvalues : p (.word "VALUES")) (htable : p (.table t))
    (hname : ∀ c, p (.name c)) (hslot : ∀ value, p (.slot value)) :
    ∀ piece ∈ insertedRows mode t columns rows, p piece := by
  have htuples : ∀ piece ∈ separated ", " (rows.map (tuple columns)), p piece := by
    refine Piece.forall_mem_separated (hwords _ (by decide)) fun part hpart => ?_
    obtain ⟨row, -, rfl⟩ := List.mem_map.mp hpart
    exact forall_mem_singles hwords hslot (row.cells columns)
  rw [insertedRows, List.forall_mem_append, List.forall_mem_cons]
  exact ⟨forall_mem_insertedColumns hwords htable hname, hvalues, htuples⟩

end

theorem assigned_insert :
    assigned (insertedRows mode t columns rows ++
      upsertClause k.dialect.toVocabulary upsert columns) =
        (upsert.elim [] (upsertColumns columns)).map .name := by
  have hequals : ∀ piece ∈ insertedRows mode t columns rows, isWord "=" piece = false :=
    forall_mem_insertedRows (by decide) rfl rfl (fun _ => rfl) (fun _ => rfl)
  have hhead : ∀ piece ∈ (upsertClause k.dialect.toVocabulary upsert columns).head?,
      isWord "=" piece = false ∧ piece.isValue = false := by
    rcases upsert with _ | _ | assignments <;>
      simp [upsertClause, k.upsert_eq, isWord, Piece.isValue]
  rw [Piece.assigned_append _ hhead, Piece.assigned_eq_nil hequals, assigned_upsertClause]
  rfl

theorem listed_insert :
    listed (insertedRows mode t columns rows ++
      upsertClause k.dialect.toVocabulary upsert columns) = columns.map .name := by
  have hfront : ∀ piece ∈ insertedColumns mode t columns, (!isWord "VALUES" piece) = true :=
    forall_mem_insertedColumns (by decide) rfl (fun _ => rfl)
  have hnames := Piece.mentions_singles ", " Piece.name (fun _ => rfl) columns
  rw [listed, insertedRows, List.append_assoc, List.takeWhile_append_of_pos hfront,
    List.cons_append, List.takeWhile_cons_of_neg (by decide), List.append_nil, insertedColumns,
    Piece.mentions_word_cons, Piece.mentions_table_cons, Piece.mentions_bracketed, hnames]
  simp [Piece.isName]

/-- The word of an upsert stands nowhere in an insert but before its assignments. -/
theorem upsert_notMem (u : Upsert) :
    .word k.dialect.upsert ∉ insertedRows mode t columns rows ∧
      .word k.dialect.upsert ∉ upsertAssignments columns u := by
  have hrows : ∀ piece ∈ insertedRows mode t columns rows,
      isWord "ON DUPLICATE KEY UPDATE" piece = false :=
    forall_mem_insertedRows (by decide) rfl rfl (fun _ => rfl) (fun _ => rfl)
  have hassignments : ∀ piece ∈ upsertAssignments columns u,
      isWord "ON DUPLICATE KEY UPDATE" piece = false := by
    cases u with
    | proposed =>
        refine Piece.forall_mem_separated rfl fun part hpart => ?_
        obtain ⟨column, -, rfl⟩ := List.mem_map.mp hpart
        simp [isWord]
    | assign assignments =>
        refine Piece.forall_mem_separated rfl fun part hpart => ?_
        obtain ⟨entry, -, rfl⟩ := List.mem_map.mp hpart
        simp [assignment, isWord]
  rw [k.upsert_eq]
  exact ⟨fun h => absurd (hrows _ h) (by decide), fun h => absurd (hassignments _ h) (by decide)⟩

/-- An update assigns to columns of its main table. -/
theorem assigned_update {assignments : Row}
    (h : updateClause k.dialect.toVocabulary s assignments = .ok pieces) :
    assigned pieces = assignments.columns.map s.mainColumn := by
  obtain ⟨-, join, hjoin, rfl⟩ := updateClause_ok.mp h
  have hnone : assigned (.word "UPDATE" :: .source s.table s.mainAlias :: join) = [] := by
    cases hs : s.join with
    | none =>
        rw [joinClause_none hs] at hjoin
        cases hjoin
        rfl
    | some joined =>
        obtain ⟨join, a⟩ := joined
        obtain ⟨word, -, rfl⟩ := (joinClause_some_ok hs).mp hjoin
        simp [assigned, Piece.takesValue, isWord, Piece.isValue, Scope.tableColumn]
  have hset : assigned (.word "SET" :: separated ", "
      (assignments.entries.map fun (column, value) => assignment (s.mainColumn column) value)) =
        assignments.columns.map s.mainColumn := by
    rw [Row.columns, List.map_map]
    exact (Piece.assigned_word_cons "SET" assignments.entries).trans
      (assigned_assignments s.mainColumn assignments.entries)
  rw [← List.cons_append, ← List.cons_append,
    Piece.assigned_append _ (by simp [isWord, Piece.isValue]), hnone, hset]
  rfl

end Statement

/-! ## Cells -/

namespace Row

variable {row first : Row}

theorem get?_of_mem (h : row.columns.Nodup) {entry : String × Value}
    (hentry : entry ∈ row.entries) : row.get? entry.1 = some entry.2 := by
  obtain ⟨entries⟩ := row
  induction entries with
  | nil => cases hentry
  | cons other rest ih =>
      obtain ⟨hother, hrest⟩ := List.nodup_cons.mp h
      rcases List.mem_cons.mp hentry with rfl | hentry
      · simp [get?]
      · have hne : other.1 ≠ entry.1 := fun heq =>
          hother (heq ▸ List.mem_map_of_mem hentry)
        have hbehind : (⟨rest⟩ : Row).get? entry.1 = some entry.2 := ih hrest hentry
        simpa [get?, List.find?_cons_of_neg, hne] using hbehind

/-- The entry of a column. -/
def cell? (row : Row) (column : String) : Option (String × Value) :=
  (row.get? column).map (Prod.mk column)

theorem filterMap_cell?_columns (h : row.columns.Nodup) :
    row.columns.filterMap row.cell? = row.entries := by
  have hentry : ∀ entry ∈ row.entries, (row.cell? ∘ Prod.fst) entry = some entry := by
    intro entry hmem
    simp [cell?, get?_of_mem h hmem]
  rw [columns, List.filterMap_map, List.filterMap_congr hentry, List.filterMap_some]

theorem zip_cells {columns : List String} (h : columns ⊆ row.columns) :
    columns.zip (row.cells columns) = columns.filterMap row.cell? := by
  induction columns with
  | nil => rfl
  | cons column rest ih =>
      obtain ⟨hcolumn, hrest⟩ := List.cons_subset.mp h
      obtain ⟨value, hvalue⟩ : ∃ value, row.get? column = some value :=
        Option.isSome_iff_exists.mp (contains_iff.mpr hcolumn)
      have hbehind := ih hrest
      rw [cells] at hbehind
      simp [cells, cell?, hvalue, hbehind]

/-- If no column comes twice, a row that matches has its own entries written, in another order. -/
theorem zip_cells_perm (h : row.Matches first) (hfirst : first.columns.Nodup) :
    (first.columns.zip (row.cells first.columns)).Perm row.entries := by
  have hlength : row.columns.length ≤ first.columns.length := by
    simpa [columns, size] using Nat.le_of_eq h.size_eq
  have hperm : first.columns.Perm row.columns :=
    (List.subperm_of_subset hfirst h.no_fewer).perm_of_length_le hlength
  have hrow : row.columns.Nodup := hperm.nodup_iff.mp hfirst
  have hentries : (first.columns.filterMap row.cell?).Perm (row.columns.filterMap row.cell?) :=
    hperm.filterMap row.cell?
  rwa [filterMap_cell?_columns hrow, ← zip_cells h.no_fewer] at hentries

end Row

/-! ## Columns that are written the same way -/

namespace Piece

variable {d : Dialect}

theorem nodup_tokens_names {columns : List String} :
    ((columns.map name).map fun piece => tokens d [piece]).Nodup ↔
      (columns.map d.quote).Nodup := by
  have hinjective : Function.Injective fun text : String => [Token.text text] := by
    intro a b h
    simpa using h
  rw [← List.nodup_map_iff hinjective, List.map_map, List.map_map]
  rfl

theorem nodup_tokens_columns {k : ShippedDialect} {columns : List String} (a : Alias) :
    ((columns.map (column a)).map fun piece => tokens k.dialect [piece]).Nodup ↔
      (columns.map k.dialect.quote).Nodup := by
  have hinjective : Function.Injective fun text : String =>
      [Token.text (Identifier.quote k.mark a.name ++ "." ++ text)] := by
    intro b c h
    simpa using h
  rw [← List.nodup_map_iff hinjective, List.map_map, List.map_map]
  simp [Function.comp_def, tokens_cons, items, Item.toToken, k.column_eq, k.quote_eq]

end Piece

/-! ## Rules of building in statements -/

/-- The columns that a query names to write to them, list by list. A column of an update may stand
behind the name of its table. -/
def Query.columnLists (q : Query) : List (List String) :=
  match q.action, q.table with
  | some (.insert (first :: _) _), _ =>
    [first.columns, q.upsert.elim [] (Statement.upsertColumns first.columns)]
  | some (.update assignments), some t =>
    [assignments.columns.map fun name => (Scope.columnOf? t.name name).getD name]
  | _, _ => []

theorem Query.isInsert_iff {q : Query} :
    q.isInsert = true ↔ ∃ rows mode, q.action = some (.insert rows mode) := by
  rcases haction : q.action with _ | a
  · simp [isInsert, haction]
  · cases a <;> simp [isInsert, haction, Action.isInsert]

namespace Lowered

open Piece (listed assigned)

/-- What the action of a statement and its upsert are lowered to. -/
def verb (k : ShippedDialect) (l : Lowered) : List Piece :=
  (Statement.verbClause k.dialect.toVocabulary l.scope l.statement.action
    l.statement.upsert).toOption.getD []

/-- What LIMIT and OFFSET bind is a number that is not negative. -/
def CountsForward (l : Lowered) : Prop :=
  ∀ (clause : CountClause) (value : Value), [.word clause.word, .slot value] <:+: l.pieces →
    ∃ n : Int64, value = .int n ∧ 0 ≤ n.toInt

/-- In an insert something is assigned behind the word of the upsert. -/
def UpsertsSomething (k : ShippedDialect) (l : Lowered) : Prop :=
  l.statement.isInsert = true → ∀ front behind,
    l.verb k = front ++ .word k.dialect.upsert :: behind → assigned behind ≠ []

/-- The columns to which a statement writes, as they stand in it: those listed in an insert and
those that values are assigned to. -/
def columnLists (k : ShippedDialect) (l : Lowered) : List (List Piece) :=
  match l.statement.action with
  | some (.insert _ _) => [listed (l.verb k), assigned (l.verb k)]
  | some (.update _) => [assigned (l.verb k)]
  | _ => []

/-- No list of columns has the same column twice. -/
def NamesApart (k : ShippedDialect) (l : Lowered) : Prop :=
  ∀ pieces ∈ l.columnLists k, (pieces.map fun piece => Piece.tokens k.dialect [piece]).Nodup

/-- All entries of all rows are bound, each in the place of its column. -/
def BindsEveryCell (k : ShippedDialect) (l : Lowered) : Prop :=
  match l.statement.action with
  | some (.insert rows _) => ∃ columns : List String,
    listed (l.verb k) = columns.map .name ∧
    Piece.args k.dialect (l.verb k) =
      (rows.flatMap fun row => row.cells columns) ++ Upsert.values l.statement.upsert ∧
    (∀ row ∈ rows, (columns.zip (row.cells columns)).Perm row.entries) ∧
    ∀ row, l.statement.upsert = some (.assign row) →
      assigned (l.verb k) = row.columns.map .name
  | some (.update row) =>
    assigned (l.verb k) = row.columns.map l.scope.mainColumn ∧
    Piece.args k.dialect (l.verb k) = row.values
  | _ => True

section

variable {k : ShippedDialect} {l : Lowered} (h : l.Runs k.dialect.toVocabulary)

include h

theorem Runs.verb_ok :
    Statement.verbClause k.dialect.toVocabulary l.scope l.statement.action l.statement.upsert =
      .ok (l.verb k) ∧ l.verb k <+: l.pieces := by
  obtain ⟨entered, after, hs, hrun⟩ := h
  obtain ⟨s, _, verb, filterPart, filtered, groupPart, havingPart, orderPart, hs', hverb, -, -, -,
    -, hpieces⟩ := Compile.query_ok.mp hrun
  obtain ⟨rfl, rfl⟩ : l.scope = s ∧ entered = _ := by simpa using hs.symm.trans hs'
  have hlowered : l.verb k = verb := by
    rw [Lowered.verb, hverb]
    rfl
  rw [hlowered, hpieces]
  exact ⟨hverb, by simp [List.append_assoc]⟩

theorem Runs.insert_ok {rows : List Row} {mode : InsertMode}
    (haction : l.statement.action = some (.insert rows mode)) :
    ∃ first rest, rows = first :: rest ∧ first.columns ≠ [] ∧ (∀ row ∈ rows, row.Matches first) ∧
      l.verb k = Statement.insertedRows mode l.scope.table first.columns rows ++
        Statement.upsertClause k.dialect.toVocabulary l.statement.upsert first.columns := by
  obtain ⟨a, ha, -, hclause⟩ := Statement.verbClause_ok.mp h.verb_ok.1
  obtain rfl := Option.some.inj (haction.symm.trans ha)
  exact Statement.insertClause_shipped hclause

theorem Runs.isInsert_of_upsert (hupsert : l.statement.upsert.isSome) :
    l.statement.isInsert = true := by
  obtain ⟨a, ha, hinsert, -⟩ := Statement.verbClause_ok.mp h.verb_ok.1
  simpa [Query.isInsert, ha] using hinsert hupsert

theorem Runs.countsForward_iff :
    l.CountsForward ↔
      ∀ (clause : CountClause) (n : Int64), clause.of l.statement = some n → 0 ≤ n.toInt := by
  obtain ⟨-, after, -, hrun⟩ := h
  rw [CountsForward]
  constructor
  · intro hcounts clause n hn
    obtain ⟨m, hm, hnonneg⟩ :=
      hcounts clause (.int n) ((Compile.isInfix_query_iff hrun _ _).mpr ⟨n, hn, rfl⟩)
    cases hm
    exact hnonneg
  · intro hcounts clause value hpair
    obtain ⟨n, hn, rfl⟩ := (Compile.isInfix_query_iff hrun _ _).mp hpair
    exact ⟨n, rfl, hcounts clause n hn⟩

theorem Runs.upsertsSomething_iff :
    l.UpsertsSomething k ↔
      ∀ row, l.statement.upsert = some (.assign row) → row.columns ≠ [] := by
  constructor
  · intro hsome row hrow
    have hinsert := h.isInsert_of_upsert (by simp [hrow])
    obtain ⟨rows, mode, haction⟩ := Query.isInsert_iff.mp hinsert
    obtain ⟨first, -, -, -, -, hverb⟩ := h.insert_ok haction
    rw [hrow, Statement.upsertClause_some] at hverb
    have hassigned := hsome hinsert _ _ hverb
    rw [Statement.assigned_upsertAssignments] at hassigned
    simpa [Statement.upsertColumns] using hassigned
  · intro hrow hinsert front behind hverb
    obtain ⟨rows, mode, haction⟩ := Query.isInsert_iff.mp hinsert
    obtain ⟨first, -, -, hcolumns, -, hlowered⟩ := h.insert_ok haction
    rw [hverb] at hlowered
    cases hupsert : l.statement.upsert with
    | none =>
        have hmem : .word k.dialect.upsert ∈
            Statement.insertedRows mode l.scope.table first.columns rows := by
          rw [hupsert, Statement.upsertClause, List.append_nil] at hlowered
          exact hlowered ▸ List.mem_append_right front List.mem_cons_self
        exact absurd hmem (Statement.upsert_notMem .proposed).1
    | some u =>
        rw [hupsert, Statement.upsertClause_some] at hlowered
        obtain ⟨hrows, hassignments⟩ := Statement.upsert_notMem u
        obtain ⟨-, -, rfl⟩ :=
          (List.append_cons_inj_of_notMem hrows hassignments).mp hlowered.symm
        rw [Statement.assigned_upsertAssignments]
        cases u with
        | proposed => simpa [Statement.upsertColumns] using hcolumns
        | assign row => simpa [Statement.upsertColumns] using hrow row hupsert

theorem Runs.of_regular (hregular : l.statement.Regular) :
    l.CountsForward ∧ l.UpsertsSomething k := by
  rw [h.countsForward_iff, h.upsertsSomething_iff]
  refine ⟨fun clause n hn => ?_, hregular.upsert⟩
  cases clause with
  | limit => exact (hregular.limit n hn).1
  | offset => exact (hregular.offset n hn).1

theorem Runs.update_ok {row : Row} (haction : l.statement.action = some (.update row)) :
    assigned (l.verb k) = row.columns.map l.scope.mainColumn := by
  obtain ⟨a, ha, -, hclause⟩ := Statement.verbClause_ok.mp h.verb_ok.1
  obtain rfl := Option.some.inj (haction.symm.trans ha)
  exact Statement.assigned_update hclause

theorem Runs.namesApart_iff :
    l.NamesApart k ↔
      ∀ columns ∈ l.statement.columnLists, (columns.map k.dialect.quote).Nodup := by
  have htable : l.statement.table = some l.scope.table := by
    obtain ⟨entered, after, hs, -⟩ := h
    exact (Scope.of_enter? hs).1
  rcases haction : l.statement.action with _ | a
  · simp [NamesApart, columnLists, Query.columnLists, haction]
  · cases a with
    | insert rows mode =>
        obtain ⟨first, rest, rfl, -, -, hverb⟩ := h.insert_ok haction
        simp only [NamesApart, columnLists, Query.columnLists, haction, hverb,
          Statement.listed_insert, Statement.assigned_insert, List.forall_mem_cons,
          Piece.nodup_tokens_names]
        simp
    | update row =>
        have hcolumns : row.columns.map l.scope.mainColumn =
            (row.columns.map fun name =>
              (Scope.columnOf? l.scope.table.name name).getD name).map
                (.column l.scope.mainAlias) := by
          rw [List.map_map]
          rfl
        simp only [NamesApart, columnLists, Query.columnLists, haction, htable, h.update_ok haction,
          hcolumns, List.forall_mem_singleton, Piece.nodup_tokens_columns]
    | _ => simp [NamesApart, columnLists, Query.columnLists, haction]

theorem Runs.bindsEveryCell (hapart : l.NamesApart k) : l.BindsEveryCell k := by
  have hargs : Piece.args k.dialect (l.verb k) =
      Action.values l.statement.action l.statement.upsert := Statement.args_verbClause h.verb_ok.1
  rcases haction : l.statement.action with _ | a
  · simp [BindsEveryCell, haction]
  · cases a with
    | insert rows mode =>
        obtain ⟨first, rest, rfl, -, hmatches, hverb⟩ := h.insert_ok haction
        have hfirst : first.columns.Nodup := by
          refine List.Nodup.of_map k.dialect.quote (h.namesApart_iff.mp hapart _ ?_)
          simp [Query.columnLists, haction]
        simp only [BindsEveryCell, haction]
        refine ⟨first.columns, ?_, ?_, fun row hrow => ?_, fun row hrow => ?_⟩
        · rw [hverb, Statement.listed_insert]
        · rw [hargs, haction]
          rfl
        · exact Row.zip_cells_perm (hmatches row hrow) hfirst
        · rw [hverb, Statement.assigned_insert, hrow]
          rfl
    | update row =>
        simp only [BindsEveryCell, haction]
        exact ⟨h.update_ok haction, by rw [hargs, haction]; rfl⟩
    | _ => simp [BindsEveryCell, haction]

end

end Lowered

/-! ## Queries that are read back -/

/-- In every statement of a query, read back or built, LIMIT and OFFSET bind no negative number
exactly if the query holds none, something is assigned on an upsert exactly if the query assigns
something, and no list of columns has one twice exactly if no two columns of the query are quoted
alike. Then no entry of a row is lost. -/
theorem Query.compile_listings {k : ShippedDialect} {q : Query} {supply after : AliasSupply}
    {c : Clause} (h : q.compile k.dialect supply = (.ok c, after)) :
    ∃ (pieces : List Piece) (runs : List Lowered),
      c = Clause.ofPieces k.dialect pieces ∧
      runs.map Lowered.statement = q.statements ∧
      runs.map Lowered.pieces = pieces :: Piece.allStatements pieces ∧
      ∀ l ∈ runs,
        l.verb k <+: l.pieces ∧
        (l.CountsForward ↔
          ∀ (clause : CountClause) (n : Int64), clause.of l.statement = some n → 0 ≤ n.toInt) ∧
        (l.UpsertsSomething k ↔
          ∀ row, l.statement.upsert = some (.assign row) → row.columns ≠ []) ∧
        (l.NamesApart k ↔
          ∀ columns ∈ l.statement.columnLists, (columns.map k.dialect.quote).Nodup) ∧
        (l.NamesApart k → l.BindsEveryCell k) := by
  obtain ⟨pieces, hpieces, rfl⟩ := compile_ok.mp h
  obtain ⟨runs, hruns⟩ := Compile.numbers_query q hpieces
  refine ⟨pieces, runs, rfl, hruns.statements_eq, hruns.bodies_eq, fun l hl => ?_⟩
  have hrun := hruns.all_run l hl
  exact ⟨hrun.verb_ok.2, hrun.countsForward_iff, hrun.upsertsSomething_iff, hrun.namesApart_iff,
    hrun.bindsEveryCell⟩

/-- The user is counted once, has other columns, and has a name to take. -/
theorem Query.compile_listings_addUser :
    ∃ (c : Clause) (after : AliasSupply) (l : Lowered),
      addUser.compile ShippedDialect.mysql.dialect {} = (.ok c, after) ∧
      l.statement.limit = some 1 ∧
      l.CountsForward ∧ l.UpsertsSomething .mysql ∧ l.NamesApart .mysql ∧
        l.BindsEveryCell .mysql := by
  obtain ⟨c, after, hcompile⟩ :
      ∃ c after, addUser.compile ShippedDialect.mysql.dialect {} = (.ok c, after) := ⟨_, _, rfl⟩
  obtain ⟨-, runs, -, hstatements, -, hruns⟩ := Query.compile_listings hcompile
  have hone : runs.map Lowered.statement = [addUser] := hstatements
  obtain ⟨l, rfl, hl⟩ := List.map_eq_singleton_iff.mp hone
  obtain ⟨-, hcounts, hupserts, hnames, hbinds⟩ := hruns l List.mem_cons_self
  rw [hl] at hcounts hupserts hnames
  have hapart : l.NamesApart .mysql := hnames.mpr (by decide)
  refine ⟨c, after, l, hcompile, by rw [hl]; rfl, hcounts.mpr ?_, hupserts.mpr ?_, hapart,
    hbinds hapart⟩
  · rintro (_ | _) n hn <;> cases hn
    decide
  · intro row hrow
    cases hrow
    decide

/-- In every statement of a query that is built LIMIT and OFFSET bind no negative number, and
something is assigned on an upsert. -/
theorem Query.Built.listings {q : Query} (hq : q.Built) {k : ShippedDialect}
    {supply after : AliasSupply} {c : Clause} (h : q.compile k.dialect supply = (.ok c, after)) :
    ∃ (pieces : List Piece) (runs : List Lowered),
      c = Clause.ofPieces k.dialect pieces ∧
      runs.map Lowered.statement = q.statements ∧
      runs.map Lowered.pieces = pieces :: Piece.allStatements pieces ∧
      ∀ l ∈ runs, l.CountsForward ∧ l.UpsertsSomething k := by
  obtain ⟨pieces, hpieces, rfl⟩ := compile_ok.mp h
  obtain ⟨runs, hruns⟩ := Compile.numbers_query q hpieces
  refine ⟨pieces, runs, rfl, hruns.statements_eq, hruns.bodies_eq, fun l hl => ?_⟩
  have hstatement : l.statement ∈ q.statements :=
    hruns.statements_eq ▸ List.mem_map_of_mem hl
  exact (hruns.all_run l hl).of_regular (hq.sound l.statement hstatement)

/-- A row with the same column twice, less than no rows, and nothing to assign. -/
def Query.loose : Query where
  table := some ⟨"t", none⟩
  action := some (.insert [⟨[("id", .int 1), ("id", .int 2)]⟩] .insert)
  limit := some (-1)
  upsert := some (.assign .empty)

/-- The query is read back from its text and compiled: the second value is lost, nothing stands
behind the word of the upsert, and LIMIT binds a negative number. -/
theorem Query.not_listings_loose :
    ofJsonText? loose.toJsonText = some loose ∧
      loose.toSql ShippedDialect.mysql.dialect =
        .ok ("INSERT INTO `t` (`id`, `id`) VALUES (%s, %s) ON DUPLICATE KEY UPDATE LIMIT %s",
          [.int 1, .int 1, .int (-1)]) ∧
      ∃ (after : AliasSupply) (l : Lowered),
        loose.compile ShippedDialect.mysql.dialect {} =
          (.ok (Clause.ofPieces ShippedDialect.mysql.dialect l.pieces), after) ∧
        l.statement = loose ∧
        l.Runs ShippedDialect.mysql.dialect.toVocabulary ∧
        ¬l.CountsForward ∧ ¬l.UpsertsSomething .mysql ∧ ¬l.NamesApart .mysql := by
  have hstores := loose.stores_node
    (List.all_eq_true.mp (by decide : loose.storedValues.all Value.isFloatFree = true))
  have hread : ofJsonText? loose.toJsonText = some loose := by
    rw [ofJsonText?, toJsonText, Json.Node.render, String.toList_ofList,
      Json.Node.read_chars hstores.wellSpelled, Option.bind_some,
      hstores.read_eq maxDepth (by decide)]
  refine ⟨hread, rfl, ?_⟩
  obtain ⟨c, after, hcompile⟩ :
      ∃ c after, loose.compile ShippedDialect.mysql.dialect {} = (.ok c, after) := ⟨_, _, rfl⟩
  obtain ⟨pieces, hpieces, rfl⟩ := compile_ok.mp hcompile
  obtain ⟨runs, hruns⟩ := Compile.numbers_query loose hpieces
  have hstatements : runs.map Lowered.statement = [loose] := hruns.statements_eq
  obtain ⟨l, rfl, hl⟩ := List.map_eq_singleton_iff.mp hstatements
  obtain ⟨rfl, -⟩ : l.pieces = pieces ∧ _ := List.cons.inj hruns.bodies_eq
  have hrun := hruns.all_run l List.mem_cons_self
  refine ⟨after, l, hcompile, hl, hrun, fun hcounts => ?_, fun hsome => ?_, fun hapart => ?_⟩
  · rw [hrun.countsForward_iff, hl] at hcounts
    exact absurd (hcounts .limit (-1) rfl) (by decide)
  · rw [hrun.upsertsSomething_iff, hl] at hsome
    exact hsome .empty rfl rfl
  · rw [hrun.namesApart_iff, hl] at hapart
    exact absurd (hapart ["id", "id"] List.mem_cons_self) (by decide)

end BoundSql

import BoundSql.Statement

/-! # Lowered clauses

What the clauses of a statement are lowered to, and when. Later modules cite these lemmas and do
not unfold the clauses. -/

namespace BoundSql

/-- The cells of a row in the order of the columns. -/
def Row.cells (row : Row) (columns : List String) : List Value :=
  columns.filterMap row.get?

namespace Statement

open Piece (bracketed separated)

variable {α β : Type} {v : Vocabulary} {s : Scope} {pieces : List Piece}

theorem bind_eq_ok {result : Except QueryError α} {next : α → Except QueryError β} {b : β} :
    (result >>= next) = .ok b ↔ ∃ a, result = .ok a ∧ next a = .ok b := by
  cases result <;> simp [bind, Except.bind]

theorem pure_eq_ok {a b : α} : (pure a : Except QueryError α) = .ok b ↔ b = a := by
  simp [pure, Except.pure, eq_comm]

theorem lookup_eq_ok {word : Except LookupError String} {text : String} :
    lookup word = .ok text ↔ word = .ok text := by
  cases word with
  | error e =>
      have hlookup : lookup (.error e) = .error (.ofLookup e) := rfl
      simp [hlookup]
  | ok found =>
      have hlookup : lookup (.ok found) = .ok found := rfl
      simp [hlookup]

/-! ## Fields -/

theorem field_function_ok {name : String} {args : List Field} :
    field v s (.function name args) = .ok pieces ↔
      ∃ word, v.function name = .ok word ∧ ∃ parts, fields v s args = .ok parts ∧
        pieces = .call word :: bracketed (separated ", " parts) := by
  simp only [field, bind_eq_ok, pure_eq_ok, lookup_eq_ok]

theorem fields_cons_ok {f : Field} {rest : List Field} {parts : List (List Piece)} :
    fields v s (f :: rest) = .ok parts ↔
      ∃ part, field v s f = .ok part ∧ ∃ others, fields v s rest = .ok others ∧
        parts = part :: others := by
  simp only [fields, bind_eq_ok, pure_eq_ok]

theorem groupByClause_ok {groupBy : List Field} :
    groupByClause v s groupBy = .ok pieces ↔
      ∃ parts, fields v s groupBy = .ok parts ∧
        pieces = if groupBy = [] then [] else .word "GROUP BY" :: separated ", " parts := by
  cases groupBy with
  | nil => simp [groupByClause, fields, eq_comm]
  | cons f rest => simp only [groupByClause, bind_eq_ok, pure_eq_ok, reduceCtorEq, if_false]

theorem ordering_ok {entry : OrderBy} :
    ordering v s entry = .ok pieces ↔
      ∃ part, field v s entry.field = .ok part ∧
        pieces = part ++ entry.direction.toList.map fun o => .word (v.sortOrder o) := by
  rw [ordering, bind_eq_ok]
  cases entry.direction <;> simp [pure_eq_ok]

theorem orderings_cons_ok {entry : OrderBy} {rest : List OrderBy} {parts : List (List Piece)} :
    orderings v s (entry :: rest) = .ok parts ↔
      ∃ part, ordering v s entry = .ok part ∧ ∃ others, orderings v s rest = .ok others ∧
        parts = part :: others := by
  simp only [orderings, bind_eq_ok, pure_eq_ok]

theorem orderByClause_ok {orderBy : List OrderBy} :
    orderByClause v s orderBy = .ok pieces ↔
      ∃ parts, orderings v s orderBy = .ok parts ∧
        pieces = if orderBy = [] then [] else .word "ORDER BY" :: separated ", " parts := by
  cases orderBy with
  | nil => simp [orderByClause, orderings, eq_comm]
  | cons entry rest =>
      simp only [orderByClause, bind_eq_ok, pure_eq_ok, reduceCtorEq, if_false]

/-! ## Verbs -/

theorem joinClause_none (h : s.join = none) : joinClause v s = .ok [] := by
  rw [joinClause, h]

theorem joinClause_some_ok {join : Join} {a : Alias} (h : s.join = some (join, a)) :
    joinClause v s = .ok pieces ↔
      ∃ word, v.joinKind join.kind = .ok word ∧
        pieces = [.word word, .source join.table a, .word "ON", s.mainColumn join.mainField,
          .word "=", Scope.tableColumn join.table a join.joinField] := by
  simp only [joinClause, h, bind_eq_ok, pure_eq_ok, lookup_eq_ok]

theorem selectClause_ok {selected : List Field} :
    selectClause v s selected = .ok pieces ↔
      selected ≠ [] ∧ ∃ parts, fields v s selected = .ok parts ∧
        ∃ join, joinClause v s = .ok join ∧
          pieces = .word "SELECT" :: (separated ", " parts ++
            .word "FROM" :: .source s.table s.mainAlias :: join) := by
  cases selected with
  | nil => simp [selectClause]
  | cons f rest =>
      simp only [selectClause, bind_eq_ok, pure_eq_ok, ne_eq, reduceCtorEq, not_false_eq_true,
        true_and]

theorem updateClause_ok {assignments : Row} :
    updateClause v s assignments = .ok pieces ↔
      assignments.isEmpty = false ∧ ∃ join, joinClause v s = .ok join ∧
        pieces = .word "UPDATE" :: .source s.table s.mainAlias :: (join ++
          .word "SET" :: separated ", " (assignments.entries.map fun (column, value) =>
            assignment (s.mainColumn column) value)) := by
  unfold updateClause
  cases assignments.isEmpty with
  | true => simp
  | false =>
      simp only [Bool.false_eq_true, if_false, bind_eq_ok, pure_eq_ok, true_and]

theorem deleteClause_ok :
    deleteClause v s = .ok pieces ↔
      ∃ join, joinClause v s = .ok join ∧
        pieces = .word "DELETE" :: ((if s.join.isSome then [.target s.mainAlias] else []) ++
          .word "FROM" :: .source s.table s.mainAlias :: join) := by
  simp only [deleteClause, bind_eq_ok, pure_eq_ok]

/-! ## Inserted rows -/

/-- A row gives its cells in the order of the columns, and fails where it lacks one. -/
theorem cells_ok {row : Row} {columns : List String} {parts : List (List Piece)} :
    cells row columns = .ok parts ↔
      (∀ column ∈ columns, row.contains column = true) ∧
        parts = (row.cells columns).map fun value => [.slot value] := by
  induction columns generalizing parts with
  | nil =>
      simp only [cells, List.not_mem_nil, false_imp_iff, implies_true, true_and, Except.ok.injEq]
      exact eq_comm
  | cons column rest ih =>
      rw [cells]
      cases hget : row.get? column with
      | none => simp [Row.contains, hget]
      | some value =>
          have hcontains : row.contains column = true := by simp [Row.contains, hget]
          have hcells : row.cells (column :: rest) = value :: row.cells rest := by
            simp [Row.cells, hget]
          simp only [bind_eq_ok, pure_eq_ok, ih, List.forall_mem_cons, hcontains, hcells,
            List.map_cons, true_and]
          constructor
          · rintro ⟨_, ⟨hrest, rfl⟩, rfl⟩
            exact ⟨hrest, rfl⟩
          · rintro ⟨hrest, rfl⟩
            exact ⟨_, ⟨hrest, rfl⟩, rfl⟩

/-- The cells of a row between brackets. -/
def tuple (columns : List String) (row : Row) : List Piece :=
  bracketed (separated ", " ((row.cells columns).map fun value => [.slot value]))

theorem tuples_ok {columns : List String} {rows : List Row} {parts : List (List Piece)} :
    tuples columns rows = .ok parts ↔
      (∀ row ∈ rows, ∀ column ∈ columns, row.contains column = true) ∧
        parts = rows.map (tuple columns) := by
  induction rows generalizing parts with
  | nil =>
      simp only [tuples, List.not_mem_nil, false_imp_iff, implies_true, true_and, Except.ok.injEq]
      exact eq_comm
  | cons row rest ih =>
      simp only [tuples, bind_eq_ok, pure_eq_ok, cells_ok, ih, List.forall_mem_cons, List.map_cons]
      constructor
      · rintro ⟨_, ⟨hrow, rfl⟩, _, ⟨hrest, rfl⟩, rfl⟩
        exact ⟨⟨hrow, hrest⟩, rfl⟩
      · rintro ⟨⟨hrow, hrest⟩, rfl⟩
        exact ⟨_, ⟨hrow, rfl⟩, _, ⟨hrest, rfl⟩, rfl⟩

theorem findIdx?_differs_eq_none {first : Row} {rows : List Row} :
    (rows.findIdx? fun row => !row.sameColumns first) = none ↔
      ∀ row ∈ rows, row.sameColumns first = true := by
  simp [List.findIdx?_eq_none_iff]

theorem insertClause_ok {first : Row} {rest : List Row} {mode : InsertMode}
    {upsert : Option Upsert} :
    insertClause v s (first :: rest) mode upsert = .ok pieces ↔
      first.isEmpty = false ∧ (∀ row ∈ first :: rest, row.sameColumns first = true) ∧
        ∃ word, v.insertMode mode = .ok word ∧
          (∀ row ∈ first :: rest, ∀ column ∈ first.columns, row.contains column = true) ∧
            pieces = .word word :: .table s.table ::
              (bracketed (separated ", " (first.columns.map fun column => [.name column])) ++
                .word "VALUES" :: (separated ", " ((first :: rest).map (tuple first.columns)) ++
                  upsertClause v upsert first.columns)) := by
  rw [insertClause]
  cases first.isEmpty with
  | true => simp
  | false =>
      simp only [Bool.false_eq_true, if_false, true_and]
      cases hmatch : (first :: rest).findIdx? fun row => !row.sameColumns first with
      | some index =>
          simp only [reduceCtorEq, false_iff]
          rintro ⟨hall, -⟩
          simp [findIdx?_differs_eq_none.mpr hall] at hmatch
      | none =>
          have hall := findIdx?_differs_eq_none.mp hmatch
          simp only [bind_eq_ok, pure_eq_ok, lookup_eq_ok, tuples_ok]
          constructor
          · rintro ⟨word, hword, _, ⟨hcells, rfl⟩, rfl⟩
            exact ⟨hall, word, hword, hcells, rfl⟩
          · rintro ⟨-, word, hword, hcells, rfl⟩
            exact ⟨word, hword, _, ⟨hcells, rfl⟩, rfl⟩

/-- The clause that a verb asks for. -/
def actionClause (v : Vocabulary) (s : Scope) (upsert : Option Upsert) :
    Action → Except QueryError (List Piece)
  | .select selected => selectClause v s selected
  | .update assignments => updateClause v s assignments
  | .insert rows mode => insertClause v s rows mode upsert
  | .delete => deleteClause v s

theorem verbClause_some (a : Action) (upsert : Option Upsert) :
    verbClause v s (some a) upsert =
      if upsert.isSome && !a.isInsert then .error .upsertWithoutInsert
      else actionClause v s upsert a := by
  cases a <;> rfl

theorem verbClause_ok {action : Option Action} {upsert : Option Upsert} :
    verbClause v s action upsert = .ok pieces ↔
      ∃ a, action = some a ∧ (upsert.isSome → a.isInsert = true) ∧
        actionClause v s upsert a = .ok pieces := by
  cases action with
  | none => simp [verbClause]
  | some a =>
      rw [verbClause_some]
      cases upsert <;> cases hinsert : a.isInsert <;> simp [hinsert]

end Statement

end BoundSql

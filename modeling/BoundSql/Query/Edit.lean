import BoundSql.Query

/-! # Building queries

A query is built by edits. Each sets one part of the query; an edit that is refused leaves the
query as it was. -/

namespace BoundSql

/-- A change to one part of a query. -/
inductive Edit where
  | select (fields : List Field)
  | update (assignments : Row)
  | insert (rows : List Row) (mode : InsertMode)
  | delete
  | onTable (table : Table)
  | join (join : Join)
  | filter (conditions : List Condition)
  | having (conditions : List Condition)
  | orderBy (entries : List OrderBy)
  | groupBy (fields : List Field)
  | limit (count : Int)
  | offset (count : Int)
  | upsert
  | upsertWith (assignments : Row)

namespace Edit

/-- An inner join of a table on one field of either table. -/
def innerJoin (table : Table) (mainField joinField : String) : Edit :=
  join ⟨.inner, table, mainField, joinField⟩

/-- The conditions of a clause, all of which must hold. -/
def conjunction (clause : String) (conditions : List Condition) :
    Except QueryError Condition :=
  if conditions.isEmpty then .error (.noConditions clause)
  else .ok (.group .and conditions)

/-- A number of rows, if a query can hold it. -/
def rowCount (clause : String) (count : Int) : Except QueryError Int64 :=
  if 0 ≤ count ∧ count ≤ Int64.maxValue.toInt then .ok (Int64.ofInt count)
  else .error (.notNonNegative clause)

/-- Rows that can be inserted. -/
def checkRows (rows : List Row) : Except QueryError Unit :=
  if rows.isEmpty then .error .buildNoRows
  else if rows.any Row.isEmpty then .error .buildNoColumns
  else .ok ()

/-- An upsert without assignments proposes the inserted values. -/
def upsertOf (assignments : Row) : Upsert :=
  if assignments.isEmpty then .proposed else .assign assignments

/-- The query after the edit, or why the edit is refused. -/
def apply (query : Query) : Edit → Except QueryError Query
  | select fields => .ok { query with action := some (.select fields) }
  | update assignments => .ok { query with action := some (.update assignments) }
  | insert rows mode =>
    (checkRows rows).map fun _ => { query with action := some (.insert rows mode) }
  | delete => .ok { query with action := some .delete }
  | onTable table => .ok { query with table := some table }
  | join added => .ok { query with join := some added }
  | filter conditions =>
    (conjunction "filter" conditions).map fun c => { query with filter := some c }
  | having conditions =>
    (conjunction "having" conditions).map fun c => { query with having := some c }
  | orderBy entries => .ok { query with orderBy := entries }
  | groupBy fields => .ok { query with groupBy := fields }
  | limit count => (rowCount "limit" count).map fun n => { query with limit := some n }
  | offset count => (rowCount "offset" count).map fun n => { query with offset := some n }
  | upsert => .ok { query with upsert := some .proposed }
  | upsertWith assignments => .ok { query with upsert := some (upsertOf assignments) }

/-- The query after the edit; the same query if the edit is refused. -/
def applyOrKeep (query : Query) (edit : Edit) : Query :=
  match apply query edit with
  | .ok changed => changed
  | .error _ => query

end Edit

/-- The query after edits in order, those that are refused left out. -/
def Query.edited (query : Query) (edits : List Edit) : Query :=
  edits.foldl Edit.applyOrKeep query

end BoundSql

import BoundSql.Scope

/-! # Statements without conditions

The clauses of a statement that draw no aliases: its verb, its join, and how its rows are grouped,
ordered and counted. -/

namespace BoundSql

open Piece (bracketed separated)

namespace Statement

/-- A word that a dialect may lack. -/
def lookup (word : Except LookupError String) : Except QueryError String :=
  word.mapError .ofLookup

mutual

/-- A field: a column of the scope, a function of fields, or plain text. -/
def field (v : Vocabulary) (s : Scope) : Field → Except QueryError (List Piece)
  | .named name => .ok [s.resolve name]
  | .function name args => do
    let word ← lookup (v.function name)
    let parts ← fields v s args
    return .call word :: bracketed (separated ", " parts)
  | .raw text => .ok [.word text]

/-- Fields one by one. -/
def fields (v : Vocabulary) (s : Scope) : List Field → Except QueryError (List (List Piece))
  | [] => .ok []
  | f :: rest => do
    let part ← field v s f
    let parts ← fields v s rest
    return part :: parts

end

/-! ## Clauses that verbs share -/

/-- The join. -/
def joinClause (v : Vocabulary) (s : Scope) : Except QueryError (List Piece) :=
  match s.join with
  | none => .ok []
  | some (join, joinAlias) => do
    let word ← lookup (v.joinKind join.kind)
    return [.word word, .source join.table joinAlias, .word "ON", s.mainColumn join.mainField,
      .word "=", Scope.tableColumn join.table joinAlias join.joinField]

def groupByClause (v : Vocabulary) (s : Scope) (groupBy : List Field) :
    Except QueryError (List Piece) :=
  match groupBy with
  | [] => .ok []
  | groupBy => do
    let parts ← fields v s groupBy
    return .word "GROUP BY" :: separated ", " parts

/-- An entry of an ordering. -/
def ordering (v : Vocabulary) (s : Scope) (entry : OrderBy) : Except QueryError (List Piece) := do
  let part ← field v s entry.field
  match entry.direction with
  | none => return part
  | some direction => return part ++ [.word (v.sortOrder direction)]

def orderings (v : Vocabulary) (s : Scope) :
    List OrderBy → Except QueryError (List (List Piece))
  | [] => .ok []
  | entry :: rest => do
    let part ← ordering v s entry
    let parts ← orderings v s rest
    return part :: parts

def orderByClause (v : Vocabulary) (s : Scope) (orderBy : List OrderBy) :
    Except QueryError (List Piece) :=
  match orderBy with
  | [] => .ok []
  | orderBy => do
    let parts ← orderings v s orderBy
    return .word "ORDER BY" :: separated ", " parts

/-- A number of rows after a word. -/
def countClause (word : String) : Option Int64 → List Piece
  | none => []
  | some n => [.word word, .slot (.int n)]

def offsetClause (offset : Option Int64) : List Piece :=
  countClause "OFFSET" offset

def limitClause (limit : Option Int64) : List Piece :=
  countClause "LIMIT" limit

/-! ## Verbs -/

def selectClause (v : Vocabulary) (s : Scope) (selected : List Field) :
    Except QueryError (List Piece) :=
  match selected with
  | [] => .error .noFields
  | selected => do
    let parts ← fields v s selected
    let join ← joinClause v s
    return .word "SELECT" :: (separated ", " parts ++
      .word "FROM" :: .source s.table s.mainAlias :: join)

/-- A column and the value it takes. -/
def assignment (column : Piece) (value : Value) : List Piece :=
  [column, .word "=", .slot value]

/-- Assigned columns belong to the main table. -/
def updateClause (v : Vocabulary) (s : Scope) (assignments : Row) :
    Except QueryError (List Piece) :=
  if assignments.isEmpty then .error .noAssignments
  else do
    let join ← joinClause v s
    return .word "UPDATE" :: .source s.table s.mainAlias :: (join ++
      .word "SET" :: separated ", "
        (assignments.entries.map fun (column, value) => assignment (s.mainColumn column) value))

/-- With a join the table whose rows are deleted is named. -/
def deleteClause (v : Vocabulary) (s : Scope) : Except QueryError (List Piece) := do
  let join ← joinClause v s
  let target := if s.join.isSome then [.target s.mainAlias] else []
  return .word "DELETE" :: (target ++ .word "FROM" :: .source s.table s.mainAlias :: join)

/-- What happens to rows whose keys are already there. -/
def upsertClause (v : Vocabulary) (upsert : Option Upsert) (columns : List String) :
    List Piece :=
  match upsert with
  | none => []
  | some .proposed =>
    .word v.upsert :: separated ", "
      (columns.map fun column => [.name column, .word "=", .proposed column])
  | some (.assign assignments) =>
    .word v.upsert :: separated ", "
      (assignments.entries.map fun (column, value) => assignment (.name column) value)

/-- The values of a row in the order of the columns, as separate parts. -/
def cells (row : Row) : List String → Except QueryError (List (List Piece))
  | [] => .ok []
  | column :: rest =>
    match row.get? column with
    | none => .error (.missingColumn column)
    | some value => do
      let parts ← cells row rest
      return [.slot value] :: parts

/-- The rows as lists of values between brackets. -/
def tuples (columns : List String) : List Row → Except QueryError (List (List Piece))
  | [] => .ok []
  | row :: rest => do
    let parts ← cells row columns
    let others ← tuples columns rest
    return bracketed (separated ", " parts) :: others

/-- The columns of the first row are those of the statement, and every row must have them. The
table has no alias. -/
def insertClause (v : Vocabulary) (s : Scope) (rows : List Row) (mode : InsertMode)
    (upsert : Option Upsert) : Except QueryError (List Piece) :=
  match rows with
  | [] => .error .noRows
  | first :: rest =>
    if first.isEmpty then .error .noColumns
    else
      match (first :: rest).findIdx? fun row => !row.sameColumns first with
      | some index => .error (.rowMismatch index)
      | none => do
        let word ← lookup (v.insertMode mode)
        let parts ← tuples first.columns (first :: rest)
        return .word word :: .table s.table ::
          (bracketed (separated ", " (first.columns.map fun column => [.name column])) ++
            .word "VALUES" :: (separated ", " parts ++ upsertClause v upsert first.columns))

/-- The clause of the verb. -/
def verbClause (v : Vocabulary) (s : Scope) (action : Option Action) (upsert : Option Upsert) :
    Except QueryError (List Piece) :=
  match action with
  | none => .error .missingVerb
  | some action =>
    if upsert.isSome && !action.isInsert then .error .upsertWithoutInsert
    else
      match action with
      | .select selected => selectClause v s selected
      | .update assignments => updateClause v s assignments
      | .insert rows mode => insertClause v s rows mode upsert
      | .delete => deleteClause v s

end Statement

end BoundSql

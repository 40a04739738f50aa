/-! # Errors -/

namespace BoundSql

/-- A key that a dialect has no word for. -/
inductive LookupError where
  | operator (key : String)
  | function (name : String)
  | joinKind (key : String)
  | insertMode (key : String)
  deriving DecidableEq

/-- The text of a failed lookup. -/
def LookupError.message : LookupError → String
  | operator key => "unknown operator '" ++ key ++ "'"
  | function name => "unknown function '" ++ name ++ "'"
  | joinKind key => "unsupported join type '" ++ key ++ "'"
  | insertMode key => "unsupported insert mode '" ++ key ++ "'"

/-- Why a query cannot be built, compiled or configured. -/
inductive QueryError where
  /-- A call that builds a query was given something it refuses. -/
  | validation (text : String)
  /-- The query is not a statement. -/
  | invalid (text : String)
  /-- Something that must be set is not, or is not known. -/
  | config (text : String)
  /-- A configuration that is not well formed. -/
  | toml
  /-- A configuration that cannot be read. -/
  | io
  deriving DecidableEq

namespace QueryError

/-- The text of an error. A configuration that cannot be read or is not well formed has none. -/
def message? : QueryError → Option String
  | validation text => some ("Validation error: " ++ text)
  | invalid text => some ("Invalid query: " ++ text)
  | config text => some ("Configuration error: " ++ text)
  | toml => none
  | io => none

/-- A failed lookup makes the query invalid. -/
def ofLookup (e : LookupError) : QueryError :=
  invalid e.message

/-! ## Causes -/

def missingTable : QueryError :=
  config "query requires a table: call on_table"

def missingVerb : QueryError :=
  invalid "no statement verb: call select, update, insert or delete"

def upsertWithoutInsert : QueryError :=
  invalid "on_duplicate_key_update requires an insert statement"

def noFields : QueryError :=
  invalid "select requires at least one field"

def noAssignments : QueryError :=
  invalid "update requires at least one assignment"

def noRows : QueryError :=
  invalid "insert requires at least one row"

def noColumns : QueryError :=
  invalid "insert rows must set at least one column"

def rowMismatch (index : Nat) : QueryError :=
  invalid ("insert row " ++ toString index ++ " does not match the columns of the first row")

def missingColumn (column : String) : QueryError :=
  invalid ("insert row is missing column " ++ column)

/-- A group of conditions without conditions; `word` is the operator that would join them. -/
def emptyGroup (word : String) : QueryError :=
  invalid ("empty " ++ word ++ " group in condition tree")

def emptyList : QueryError :=
  invalid "IN list must not be empty"

def malformedSpecifier (spec : String) : QueryError :=
  invalid ("Invalid condition specifier <" ++ spec ++ ">")

def unknownDialect (name : String) : QueryError :=
  config ("unknown dialect '" ++ name ++ "'")

def buildNoRows : QueryError :=
  validation "insert requires at least one row"

def buildNoColumns : QueryError :=
  validation "insert rows must set at least one column"

/-- A clause that joins conditions was given none. -/
def noConditions (clause : String) : QueryError :=
  validation (clause ++ " requires at least one condition")

/-- A clause that counts rows was given a number it cannot hold. -/
def notNonNegative (clause : String) : QueryError :=
  validation (clause ++ " must be a non-negative integer")

end QueryError

end BoundSql

import BoundSql.Value

/-! # Rows

A row maps columns to values in the order in which the columns came. -/

namespace BoundSql

/-- Columns with their values. Rows that are built column by column have every column once. -/
structure Row where
  entries : List (String × Value) := []

namespace Row

def empty : Row := {}

/-- The entries with a value for a column. A column that is there keeps its place. -/
def setEntry (column : String) (value : Value) : List (String × Value) → List (String × Value)
  | [] => [(column, value)]
  | (c, v) :: rest =>
    if c = column then (c, value) :: rest else (c, v) :: setEntry column value rest

/-- The row with a value for a column. A column that is there keeps its place. -/
def set (row : Row) (column : String) (value : Value) : Row :=
  ⟨setEntry column value row.entries⟩

/-- The row of a list of columns and values. A column that comes again keeps its first place and
its last value. -/
def ofList (entries : List (String × Value)) : Row :=
  entries.foldl (fun row (column, value) => row.set column value) empty

/-- The value of a column. -/
def get? (row : Row) (column : String) : Option Value :=
  (row.entries.find? fun e => e.1 == column).map Prod.snd

/-- The columns in order. -/
def columns (row : Row) : List String :=
  row.entries.map Prod.fst

/-- The values in order. -/
def values (row : Row) : List Value :=
  row.entries.map Prod.snd

def contains (row : Row) (column : String) : Bool :=
  (row.get? column).isSome

def size (row : Row) : Nat :=
  row.entries.length

def isEmpty (row : Row) : Bool :=
  row.entries.isEmpty

/-- Both rows have as many entries, and every column of this one is in the other. For rows with
every column once this means the same set of columns. -/
def sameColumns (row other : Row) : Bool :=
  row.size == other.size && row.columns.all other.contains

instance : BEq Row := ⟨fun a b => a.entries == b.entries⟩

end Row

end BoundSql

import BoundSql.Operator

/-! # Fields -/

namespace BoundSql

/-- A field in a select list, a condition, a grouping or an ordering: a column, with or without
the name of its table before a dot; a function of fields; or text that is written as it is. -/
inductive Field where
  | named (name : String)
  | function (name : String) (args : List Field)
  | raw (text : String)

namespace Field

mutual

/-- A field in plain writing. -/
def describe : Field → String
  | named name => name
  | function name args => name ++ "(" ++ describeAll args ++ ")"
  | raw text => text

/-- Fields in plain writing, with commas between them. -/
def describeAll : List Field → String
  | [] => ""
  | [field] => describe field
  | field :: rest => describe field ++ ", " ++ describeAll rest

end

mutual

/-- Whether two fields are the same. -/
def same : Field → Field → Bool
  | named a, named b => a == b
  | function f as, function g bs => f == g && sameAll as bs
  | raw a, raw b => a == b
  | _, _ => false

/-- Whether two lists of fields are the same. -/
def sameAll : List Field → List Field → Bool
  | [], [] => true
  | a :: as, b :: bs => same a b && sameAll as bs
  | _, _ => false

end

instance : BEq Field := ⟨same⟩

/-! ## Common functions -/

/-- The count of a column, or of rows. -/
def count : Option String → Field
  | some column => function "count" [named column]
  | none => function "count" [raw "1"]

def max (column : String) : Field :=
  function "max" [named column]

def min (column : String) : Field :=
  function "min" [named column]

def sum (column : String) : Field :=
  function "sum" [named column]

def avg (column : String) : Field :=
  function "avg" [named column]

/-- The present moment. -/
def utcNow : Field :=
  function "utcnow" []

/-- The present moment as a count of seconds. -/
def unixTimestamp : Field :=
  function "unix_timestamp" []

end Field

/-- An entry of an ordering. Without a direction the database chooses. -/
structure OrderBy where
  field : Field
  direction : Option SortOrder := none

namespace OrderBy

instance : BEq OrderBy :=
  ⟨fun a b => a.field == b.field && a.direction == b.direction⟩

def asc (field : Field) : OrderBy :=
  ⟨field, some .asc⟩

def desc (field : Field) : OrderBy :=
  ⟨field, some .desc⟩

end OrderBy

end BoundSql

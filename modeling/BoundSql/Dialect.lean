import BoundSql.Query
import BoundSql.Token

/-! # Dialects

A dialect is a vocabulary, which spells what a statement says, together with the writing of
names and of markers. What a dialect does not settle itself is settled as here. -/

namespace BoundSql

/-- The words for the common functions. -/
def functionWords : List (String × String) :=
  [("count", "COUNT"), ("avg", "AVG"), ("max", "MAX"), ("min", "MIN"), ("sum", "SUM"),
    ("utcnow", "UTC_TIMESTAMP"), ("unix_timestamp", "UNIX_TIMESTAMP")]

namespace Vocabulary

/-- The word for a function. A function without one is written by its name. -/
def functionWord (name : String) : String :=
  ((functionWords.find? fun entry => entry.1 == name).map Prod.snd).getD name

def logicalWord : LogicalOp → String
  | .and => "AND"
  | .or => "OR"
  | .xor => "XOR"

def joinWord : JoinKind → String
  | .inner => "INNER JOIN"
  | .left => "LEFT JOIN"

def sortWord : SortOrder → String
  | .asc => "ASC"
  | .desc => "DESC"

def insertWord : InsertMode → String
  | .insert => "INSERT INTO"
  | .ignore => "INSERT IGNORE INTO"
  | .replace => "REPLACE INTO"

end Vocabulary

/-- The words of a dialect. It may lack some. -/
structure Vocabulary where
  operator : Operator → Except LookupError String := Operator.standard
  function : String → Except LookupError String := fun name => .ok (Vocabulary.functionWord name)
  logical : LogicalOp → String := Vocabulary.logicalWord
  joinKind : JoinKind → Except LookupError String := fun kind => .ok (Vocabulary.joinWord kind)
  sortOrder : SortOrder → String := Vocabulary.sortWord
  null : String := "NULL"
  insertMode : InsertMode → Except LookupError String := fun mode =>
    .ok (Vocabulary.insertWord mode)
  upsert : String := "ON DUPLICATE KEY UPDATE"

/-- A flavour of statement text. -/
structure Dialect extends Vocabulary where
  name : String
  /-- A name as an identifier. -/
  quote : String → String
  /-- What stands for a bound value. -/
  placeholder : String := "%s"
  /-- The value that an insert proposes for a column. -/
  proposed : String → List Token := fun column =>
    [.function "VALUES", .text "(", .text (quote column), .text ")"]
  /-- A table without an alias. -/
  table : Table → String := fun t =>
    match t.schema with
    | some schema => quote schema ++ "." ++ quote t.name
    | none => quote t.name
  /-- A column of the table with the given alias. -/
  column : String → String → String := fun owner column => quote owner ++ "." ++ quote column

end BoundSql

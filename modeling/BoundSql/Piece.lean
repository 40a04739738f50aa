import BoundSql.Alias
import BoundSql.Dialect

/-! # Pieces of a statement

A query is lowered to pieces. A piece says what stands at a place of the statement: a word, a
bound value, a column of an aliased table, a nested statement. Only the dialect turns pieces
into tokens. -/

namespace BoundSql

/-- What stands at a place of a statement. -/
inductive Piece where
  /-- Text that is written as it is. -/
  | word (text : String)
  /-- The word for a function, before its arguments. -/
  | call (name : String)
  /-- The place of a bound value. -/
  | slot (value : Value)
  /-- A table that gets no alias. -/
  | table (t : Table)
  /-- A table together with the alias it gets. -/
  | source (t : Table) (a : Alias)
  /-- The aliased table whose rows are deleted. -/
  | target (a : Alias)
  /-- A column of an aliased table. -/
  | column (a : Alias) (name : String)
  /-- A column that is named without its table. -/
  | name (column : String)
  /-- The value that an insert proposes for a column. -/
  | proposed (column : String)
  /-- A statement between brackets. -/
  | nested (body : List Piece)

/-- A token of a statement, or the place of a bound value. -/
inductive Item where
  | token (t : Token)
  | slot (value : Value)

namespace Item

/-- The token at an item, given the marker for bound values. -/
def toToken (placeholder : String) : Item → Token
  | token t => t
  | slot _ => .text placeholder

/-- The value at an item, if it is the place of one. -/
def value? : Item → Option Value
  | token _ => none
  | slot value => some value

end Item

namespace Piece

mutual

/-- A piece in a dialect. The marker for bound values has no part in it. -/
def items (d : Dialect) : Piece → List Item
  | word text => [.token (.text text)]
  | call function => [.token (.function function)]
  | slot value => [.slot value]
  | table t => [.token (.text (d.table t))]
  | source t a =>
    [.token (.text (d.table t)), .token (.text "AS"), .token (.text (d.quote a.name))]
  | target a => [.token (.text (d.quote a.name))]
  | column a own => [.token (.text (d.column a.name own))]
  | name own => [.token (.text (d.quote own))]
  | proposed own => (d.proposed own).map .token
  | nested body => .token (.text "(") :: (allItems d body ++ [.token (.text ")")])

/-- Pieces in a dialect. -/
def allItems (d : Dialect) : List Piece → List Item
  | [] => []
  | piece :: rest => items d piece ++ allItems d rest

end

/-- Pieces between brackets. -/
def bracketed (body : List Piece) : List Piece :=
  .word "(" :: (body ++ [.word ")"])

/-- Runs of pieces with a word between every two of them. -/
def separated (word : String) (parts : List (List Piece)) : List Piece :=
  [.word word].intercalate parts

/-! ## Items of several pieces -/

@[simp]
theorem allItems_append (d : Dialect) (left right : List Piece) :
    allItems d (left ++ right) = allItems d left ++ allItems d right := by
  induction left with
  | nil => rfl
  | cons piece rest ih => simp [allItems, ih]

/-- A nested statement is written as its pieces between brackets. -/
theorem items_nested (d : Dialect) (body : List Piece) :
    items d (nested body) = allItems d (bracketed body) := by
  simp [items, bracketed, allItems]

end Piece

end BoundSql

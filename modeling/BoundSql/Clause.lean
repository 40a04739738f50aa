import BoundSql.Piece

/-! # Clauses -/

namespace BoundSql

/-- The tokens of a clause or of a whole statement, and the values bound to its markers, in the
order of the markers. -/
structure Clause where
  tokens : List Token := []
  args : List Value := []

namespace Clause

def empty : Clause := {}

/-- The clause has no tokens. -/
def isEmpty (c : Clause) : Bool :=
  c.tokens.isEmpty

/-- The text of a clause. -/
def sql (c : Clause) : String :=
  Token.join c.tokens

/-- One clause after the other. -/
def append (c other : Clause) : Clause :=
  ⟨c.tokens ++ other.tokens, c.args ++ other.args⟩

/-- The clause of items, given the marker for bound values. -/
def ofItems (placeholder : String) (items : List Item) : Clause where
  tokens := items.map (Item.toToken placeholder)
  args := items.filterMap Item.value?

/-- The clause of pieces in a dialect. -/
def ofPieces (d : Dialect) (pieces : List Piece) : Clause :=
  ofItems d.placeholder (Piece.allItems d pieces)

@[simp]
theorem ofItems_append (placeholder : String) (left right : List Item) :
    ofItems placeholder (left ++ right) =
      (ofItems placeholder left).append (ofItems placeholder right) := by
  simp [ofItems, append]

/-- Pieces one after the other give their clauses one after the other. -/
theorem ofPieces_append (d : Dialect) (left right : List Piece) :
    ofPieces d (left ++ right) = (ofPieces d left).append (ofPieces d right) := by
  simp [ofPieces]

/-! ## Writing clauses by hand -/

/-- A clause that starts with a word. -/
def keyword (word : String) : Clause :=
  { tokens := [.text word] }

/-- The clause with one more token. -/
def push (c : Clause) (token : Token) : Clause :=
  { c with tokens := c.tokens ++ [token] }

/-- The clause with a marker and the value bound to it. -/
def bind (c : Clause) (placeholder : String) (value : Value) : Clause :=
  ⟨c.tokens ++ [.text placeholder], c.args ++ [value]⟩

/-- A way to write on a clause. It may fail; what was written until then stays. -/
abbrev Writer := ExceptT QueryError (StateM Clause) Unit

namespace Writer

/-- Changes the clause. -/
def change (f : Clause → Clause) : Writer :=
  modify f

/-- Writes what `body` writes between brackets. If `body` fails, no bracket is closed. -/
def bracketed (body : Writer) : Writer := do
  change (push · (.text "("))
  body
  change (push · (.text ")"))

/-- Writes items one after the other, each after the separator. -/
def afterSeparator {α : Type} (separator : String) (emit : α → Writer) : List α → Writer
  | [] => pure ()
  | item :: rest => do
    change (push · (.text separator))
    emit item
    afterSeparator separator emit rest

/-- Writes items with the separator between every two of them. -/
def separated {α : Type} (separator : String) (emit : α → Writer) : List α → Writer
  | [] => pure ()
  | item :: rest => do
    emit item
    afterSeparator separator emit rest

/-- The clause after writing, and the error if the writing failed. -/
def writeOn (c : Clause) (writer : Writer) : Except QueryError Unit × Clause :=
  writer.run.run c

end Writer

end Clause

end BoundSql

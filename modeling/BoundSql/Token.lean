import BoundSql.Text.Blank

/-! # Tokens and the text they join to

A statement is written as tokens. `Token.join` puts one space between two neighbours unless
punctuation, a function name or a blank that is already there makes it needless. -/

namespace BoundSql

open Text

/-- A piece of statement text. The name of a function stands apart from other text because no
space follows it. -/
inductive Token where
  | text (word : String)
  | function (name : String)
  deriving DecidableEq

namespace Token

/-- The text of a token. -/
def spelling : Token → String
  | text word => word
  | function name => name

/-- The characters of a token. -/
def chars (t : Token) : List Char :=
  t.spelling.toList

/-- The token is the name of a function. -/
def isFunction : Token → Bool
  | text _ => false
  | function _ => true

/-- The token has no character that is not blank. -/
def isSpace (t : Token) : Bool :=
  allBlank t.chars

/-- The token has no character. -/
def isEmpty (t : Token) : Bool :=
  t.chars.isEmpty

/-! ## Joining -/

/-- No space may follow a text that ends so. -/
def closesTight (cs : List Char) : Bool :=
  match cs.getLast? with
  | some c => c == '(' || c == ',' || isBlank c
  | none => false

/-- No space may precede a text that starts so. -/
def opensTight (cs : List Char) : Bool :=
  match cs.head? with
  | some c => c == ')' || c == ',' || isBlank c
  | none => false

/-- Two neighbours stand together without a space. -/
def tight (left right : Token) : Bool :=
  left.isFunction || left.isSpace || right.isSpace || closesTight left.chars ||
    opensTight right.chars

/-- The text between two neighbours. -/
def gap (left right : Token) : List Char :=
  if tight left right then [] else [' ']

/-- The tokens one after the other with the gaps between them. -/
def spaced : List Token → List Char
  | [] => []
  | [t] => t.chars
  | t :: u :: rest => t.chars ++ gap t u ++ spaced (u :: rest)

/-- The tokens without the first one if that is blank. -/
def dropLeadingSpace : List Token → List Token
  | [] => []
  | t :: rest => if t.isSpace then rest else t :: rest

/-- The tokens without the last one if that is blank. -/
def dropTrailingSpace : List Token → List Token
  | [] => []
  | [t] => if t.isSpace then [] else [t]
  | t :: rest => t :: dropTrailingSpace rest

/-- The characters of joined tokens. Empty tokens count for nothing, and one blank token is
dropped at either end. -/
def joinChars (tokens : List Token) : List Char :=
  spaced (dropTrailingSpace (dropLeadingSpace (tokens.filter fun t => !t.isEmpty)))

/-- The text of joined tokens. -/
def join (tokens : List Token) : String :=
  String.ofList (joinChars tokens)

end Token

end BoundSql

import BoundSql.Json.Lexeme

/-! # Reading JSON text

The reader goes through the lexemes once. It holds the containers that are open, innermost
first, and what may come next. -/

namespace BoundSql.Json

/-- A container that is still open. What it holds so far is kept last first. -/
inductive Frame where
  | array (items : List Node)
  | object (members : List (Literal × Node))
  | member (members : List (Literal × Node)) (key : Literal)

/-- What may come next. -/
inductive Reader where
  /-- A value. -/
  | value (opened : List Frame)
  /-- The first item of an array, or its end. -/
  | firstItem (opened : List Frame)
  /-- The first key of an object, or its end. -/
  | firstKey (opened : List Frame)
  /-- A key. -/
  | key (opened : List Frame)
  /-- The colon after a key. -/
  | colon (opened : List Frame)
  /-- A comma, or the end of the innermost container. -/
  | next (opened : List Frame)
  /-- Nothing. -/
  | finished (node : Node)

namespace Reader

/-- A value is complete. -/
def complete (node : Node) : List Frame → Reader
  | [] => finished node
  | .array items :: rest => next (.array (node :: items) :: rest)
  | .member members label :: rest => next (.object ((label, node) :: members) :: rest)
  | .object members :: rest => next (.object members :: rest)

/-- A value starts. -/
def start (opened : List Frame) : Lexeme → Option Reader
  | .openArray => some (firstItem (.array [] :: opened))
  | .openObject => some (firstKey (.object [] :: opened))
  | .null => some (complete .null opened)
  | .bool b => some (complete (.bool b) opened)
  | .number n => some (complete (.number n) opened)
  | .string s => some (complete (.string s) opened)
  | _ => none

/-- The innermost container ends. -/
def close : List Frame → Lexeme → Option Reader
  | .array items :: rest, .closeArray => some (complete (.array items.reverse) rest)
  | .object members :: rest, .closeObject => some (complete (.object members.reverse) rest)
  | _, _ => none

/-- A key comes. -/
def takeKey : List Frame → Lexeme → Option Reader
  | .object members :: rest, .string s => some (colon (.member members s :: rest))
  | _, _ => none

/-- The reader after one more lexeme. -/
def step : Reader → Lexeme → Option Reader
  | value opened, lexeme => start opened lexeme
  | firstItem opened, lexeme =>
    match lexeme with
    | .closeArray => close opened .closeArray
    | _ => start opened lexeme
  | firstKey opened, lexeme =>
    match lexeme with
    | .closeObject => close opened .closeObject
    | _ => takeKey opened lexeme
  | key opened, lexeme => takeKey opened lexeme
  | colon opened, lexeme =>
    match lexeme with
    | .colon => some (value opened)
    | _ => none
  | next opened, lexeme =>
    match opened, lexeme with
    | .array _ :: _, .comma => some (value opened)
    | .object _ :: _, .comma => some (key opened)
    | _, _ => close opened lexeme
  | finished _, _ => none

/-- The node that has been read, if it is complete. -/
def result? : Reader → Option Node
  | finished node => some node
  | _ => none

/-- The reader after all the lexemes. -/
def run (reader : Reader) (lexemes : List Lexeme) : Option Reader :=
  lexemes.foldlM step reader

end Reader

/-- The one value that a JSON text holds. -/
def Node.read (cs : List Char) : Option Node := do
  let lexemes ← Lexeme.ofChars cs
  let reader ← (Reader.value []).run lexemes
  reader.result?

end BoundSql.Json

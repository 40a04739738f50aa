import BoundSql.Json.Node

/-! # Writing JSON text

The text has no blanks between lexemes. In strings only quotes, backslashes and control
characters are escaped. -/

namespace BoundSql.Json

open Text

/-- A character inside a string. -/
def escapeChar (c : Char) : List Char :=
  match c with
  | '"' => ['\\', '"']
  | '\\' => ['\\', '\\']
  | '\x08' => ['\\', 'b']
  | '\x0c' => ['\\', 'f']
  | '\n' => ['\\', 'n']
  | '\r' => ['\\', 'r']
  | '\t' => ['\\', 't']
  | c => if c.toNat < 0x20 then '\\' :: 'u' :: hexDigits 4 c.toNat else [c]

/-- A string between quotes. One that stands for no text is written as half a surrogate pair,
which stands for no text either. -/
def literalChars : Literal → List Char
  | some s => '"' :: (s.toList.flatMap escapeChar ++ ['"'])
  | none => ['"', '\\', 'u', 'd', '8', '0', '0', '"']

namespace Node

mutual

/-- The text of a node. -/
def chars : Node → List Char
  | null => ['n', 'u', 'l', 'l']
  | bool true => ['t', 'r', 'u', 'e']
  | bool false => ['f', 'a', 'l', 's', 'e']
  | number n => n.chars
  | string s => literalChars s
  | array items => '[' :: (itemChars items ++ [']'])
  | object members => '\x7b' :: (memberChars members ++ ['\x7d'])

/-- The items of an array with commas between them. -/
def itemChars : List Node → List Char
  | [] => []
  | [item] => chars item
  | item :: rest => chars item ++ ',' :: itemChars rest

/-- The members of an object with commas between them. -/
def memberChars : List (Literal × Node) → List Char
  | [] => []
  | [(key, value)] => literalChars key ++ ':' :: chars value
  | (key, value) :: rest => literalChars key ++ ':' :: (chars value ++ ',' :: memberChars rest)

end

/-- The text of a node. -/
def render (node : Node) : String :=
  String.ofList (chars node)

end Node

end BoundSql.Json

import BoundSql.Json.Numeral

/-! # JSON text as a tree

A node keeps what a text says: the digits of a number, the order of the members of an object and
members that come twice. -/

namespace BoundSql.Json

/-- A string whose escapes name half of a surrogate pair stands for no text. -/
abbrev Literal := Option String

/-- A value of a JSON text. -/
inductive Node where
  | null
  | bool (b : Bool)
  | number (n : Numeral)
  | string (s : Literal)
  | array (items : List Node)
  | object (members : List (Literal × Node))
  deriving Inhabited

namespace Node

/-- The node of a text. -/
def text (s : String) : Node :=
  string (some s)

/-- The node of an integer. -/
def int (n : Int) : Node :=
  number (.ofInt n)

/-- An object whose keys are texts. -/
def record (members : List (String × Node)) : Node :=
  object (members.map fun (key, value) => (some key, value))

/-- The value of the first member with the given key. -/
def member? (key : String) : Node → Option Node
  | object members => (members.find? fun m => m.1 == some key).map Prod.snd
  | _ => none

end Node

end BoundSql.Json

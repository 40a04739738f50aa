import BoundSql.Json.Node

/-! # Shapes of stored data

Data is stored in two shapes. A record is an object with the fields as members, and may also be
read from the list of its fields. A variant is its name alone, or an object whose one member has
the name as key and the content as value. -/

namespace BoundSql.Json

/-- When a field of a record may be missing. -/
inductive Presence where
  /-- Never. -/
  | required
  /-- In an object. -/
  | optional
  /-- In an object, and at the end of a list. -/
  | defaulted
  deriving DecidableEq

/-- The fields of a record in order. -/
abbrev RecordShape := List (String × Presence)

namespace RecordShape

/-- The members of an object belong to a record: every key is a text, and no field comes twice.
Members that are no fields do not count. -/
def admits (shape : RecordShape) : List (Literal × Node) → Bool
  | [] => true
  | (key, _) :: rest =>
    match key with
    | none => false
    | some k =>
      (!(shape.any fun field => field.1 == k) || !(rest.any fun m => m.1 == some k)) &&
        admits shape rest

/-- The values of the fields among the members of an object. -/
def ofMembers (members : List (Literal × Node)) : RecordShape → Option (List (Option Node))
  | [] => some []
  | (name, presence) :: rest => do
    let value := (members.find? fun m => m.1 == some name).map Prod.snd
    if value.isNone && presence == .required then none
    else do
      let values ← ofMembers members rest
      return value :: values

/-- The values of the fields in a list. -/
def ofItems : List Node → RecordShape → Option (List (Option Node))
  | [], [] => some []
  | _ :: _, [] => none
  | item :: items, _ :: rest => (ofItems items rest).map (some item :: ·)
  | [], (_, presence) :: rest =>
    if presence == .defaulted then (ofItems [] rest).map (none :: ·) else none

/-- The values of the fields of a record; a field that is missing has none. -/
def read? (shape : RecordShape) : Node → Option (List (Option Node))
  | .object members => if shape.admits members then shape.ofMembers members else none
  | .array items => ofItems items shape
  | _ => none

end RecordShape

namespace Node

/-! ## Scalars -/

/-- The text of a string. -/
def text? : Node → Option String
  | string s => s
  | _ => none

def bool? : Node → Option Bool
  | bool b => some b
  | _ => none

/-- The integer of a number between two bounds. -/
def intWithin? (low high : Int) : Node → Option Int
  | number n =>
    match n.toInt? with
    | some i => if low ≤ i ∧ i ≤ high then some i else none
    | none => none
  | _ => none

/-! ## Variants -/

/-- A variant with content. -/
def variant (name : String) (content : Node) : Node :=
  record [(name, content)]

/-- What is missing is null. -/
def option {α : Type} (node : α → Node) : Option α → Node
  | some a => node a
  | none => null

/-- The name of a variant without content. -/
def unitName? : Nat → Node → Option String
  | _, string s => s
  | _ + 1, object [(key, null)] => key
  | _, _ => none

/-- The variant without content whose name is listed. -/
def unit? {α : Type} (names : List (String × α)) (depth : Nat) (node : Node) : Option α :=
  match unitName? depth node with
  | some name => (names.find? fun entry => entry.1 == name).map Prod.snd
  | none => none

/-- The value that may be null. -/
def option? {α : Type} (read : Node → Option α) : Node → Option (Option α)
  | null => some none
  | node => (read node).map some

/-- The value of a field that may be missing or null. -/
def field? {α : Type} (read : Node → Option α) : Option Node → Option (Option α)
  | none => some none
  | some node => option? read node

end Node

end BoundSql.Json

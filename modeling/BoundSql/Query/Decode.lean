import BoundSql.Json.Reader
import BoundSql.Query.Encode

/-! # Reading stored queries

Reading follows the shapes of the stored form. It keeps count of how deep it is inside brackets:
`depth` is the number of brackets that may still be opened. What no field asks for is skipped
and may be of any depth. -/

namespace BoundSql

open Json

/-- How deep the parts of a stored query may lie in brackets. -/
def maxDepth : Nat := 127

/-! ## Values and rows -/

def Operator.ofNode? (depth : Nat) (node : Node) : Option Operator :=
  match Node.unit? Operator.names depth node with
  | some op => some op
  | none =>
    match depth, node with
    | _ + 1, .object [(some "Other", content)] => content.text?.map .other
    | _, _ => none

def Binary64.ofNode? : Node → Option Binary64
  | .number n => n.toBinary64?
  | _ => none

def Int64.ofNode? (node : Node) : Option Int64 :=
  (node.intWithin? Int64.minValue.toInt Int64.maxValue.toInt).map Int64.ofInt

def byteOfNode? (node : Node) : Option UInt8 :=
  (node.intWithin? 0 255).map fun n => UInt8.ofNat n.toNat

/-- The items of an array, each read by `read` one bracket deeper. -/
def listOfNode? {α : Type} (read : Nat → Node → Option α) : Nat → Node → Option (List α)
  | depth + 1, .array items => items.mapM (read depth)
  | _, _ => none

/-- A value by the name of its variant and the content. -/
def Value.ofContent? (depth : Nat) (name : String) (content : Node) : Option Value :=
  match name with
  | "Null" => if content matches .null then some null else none
  | "Bool" => content.bool?.map bool
  | "Int" => (Int64.ofNode? content).map int
  | "Float" => (Binary64.ofNode? content).map float
  | "String" => content.text?.map string
  | "Bytes" => (listOfNode? (fun _ => byteOfNode?) depth content).map bytes
  | "Timestamp" => (content.text?.bind Timestamp.ofString?).map timestamp
  | "Json" => (Json.ofNode? depth content).map json
  | _ => none

def Value.ofNode? : Nat → Node → Option Value
  | _, .string (some "Null") => some null
  | depth + 1, .object [(some name, content)] => Value.ofContent? depth name content
  | _, _ => none

/-- A column and its value, in a list of two. -/
def Row.entryOfNode? : Nat → Node → Option (String × Value)
  | depth + 1, .array [column, value] => do
    return (← column.text?, ← Value.ofNode? depth value)
  | _, _ => none

def Row.shape : RecordShape := [("entries", .required)]

/-- A row. Columns that come twice are kept as they stand. -/
def Row.ofNode? : Nat → Node → Option Row
  | depth + 1, node => do
    match ← Row.shape.read? node with
    | [some entries] => (listOfNode? Row.entryOfNode? depth entries).map Row.mk
    | _ => none
  | 0, _ => none

/-! ## Fields -/

def Field.callShape : RecordShape := [("name", .required), ("args", .required)]

mutual

def Field.ofNode? : Nat → Node → Option Field
  | depth + 1, .object [(some name, content)] =>
    match name with
    | "Named" => content.text?.map .named
    | "Function" => Field.callOfNode? depth content
    | "Raw" => content.text?.map .raw
    | _ => none
  | _, _ => none

def Field.callOfNode? : Nat → Node → Option Field
  | depth + 1, node => do
    match ← Field.callShape.read? node with
    | [some name, some args] => return .function (← name.text?) (← Field.argsOfNode? depth args)
    | _ => none
  | 0, _ => none

def Field.argsOfNode? : Nat → Node → Option (List Field)
  | depth + 1, .array items => items.mapM (Field.ofNode? depth)
  | _, _ => none

end

def OrderBy.shape : RecordShape := [("field", .required), ("direction", .optional)]

def OrderBy.ofNode? : Nat → Node → Option OrderBy
  | depth + 1, node => do
    match ← OrderBy.shape.read? node with
    | [some field, direction] =>
      return ⟨← Field.ofNode? depth field,
        ← Node.field? (Node.unit? SortOrder.names depth) direction⟩
    | _ => none
  | 0, _ => none

/-! ## Parts of a query -/

def Table.shape : RecordShape := [("name", .required), ("schema", .defaulted)]

def Table.ofNode? : Nat → Node → Option Table
  | _ + 1, node => do
    match ← Table.shape.read? node with
    | [some name, schema] => return ⟨← name.text?, ← Node.field? Node.text? schema⟩
    | _ => none
  | 0, _ => none

def Join.shape : RecordShape :=
  [("kind", .required), ("table", .required), ("main_field", .required),
    ("join_field", .required)]

def Join.ofNode? : Nat → Node → Option Join
  | depth + 1, node => do
    match ← Join.shape.read? node with
    | [some kind, some table, some mainField, some joinField] =>
      return ⟨← Node.unit? JoinKind.names depth kind, ← Table.ofNode? depth table,
        ← mainField.text?, ← joinField.text?⟩
    | _ => none
  | 0, _ => none

def Action.insertShape : RecordShape := [("rows", .required), ("mode", .required)]

def Action.insertOfNode? : Nat → Node → Option Action
  | depth + 1, node => do
    match ← Action.insertShape.read? node with
    | [some rows, some mode] =>
      return .insert (← listOfNode? Row.ofNode? depth rows)
        (← Node.unit? InsertMode.names depth mode)
    | _ => none
  | 0, _ => none

def Action.ofNode? : Nat → Node → Option Action
  | _, .string (some "Delete") => some .delete
  | depth + 1, .object [(some name, content)] =>
    match name with
    | "Select" => (listOfNode? Field.ofNode? depth content).map .select
    | "Update" => (Row.ofNode? depth content).map .update
    | "Insert" => Action.insertOfNode? depth content
    | "Delete" => if content matches .null then some .delete else none
    | _ => none
  | _, _ => none

def Upsert.ofNode? : Nat → Node → Option Upsert
  | _, .string (some "Proposed") => some .proposed
  | depth + 1, .object [(some name, content)] =>
    match name with
    | "Proposed" => if content matches .null then some .proposed else none
    | "Assign" => (Row.ofNode? depth content).map .assign
    | _ => none
  | _, _ => none

/-! ## Queries -/

def Condition.compareShape : RecordShape :=
  [("field", .required), ("op", .required), ("value", .required)]

def Condition.specShape : RecordShape := [("spec", .required), ("value", .required)]

def Condition.groupShape : RecordShape := [("op", .required), ("conditions", .required)]

def Query.shape : RecordShape :=
  [("action", .optional), ("table", .optional), ("join", .defaulted),
    ("where_clause", .defaulted), ("having", .defaulted), ("order_by", .defaulted),
    ("group_by", .defaulted), ("limit", .defaulted), ("offset", .defaulted),
    ("on_duplicate_key", .defaulted)]

/-- A list that may be missing but not null. -/
def listOfField? {α : Type} (read : Nat → Node → Option α) (depth : Nat) :
    Option Node → Option (List α)
  | none => some []
  | some node => listOfNode? read depth node

mutual

def Operand.ofNode? : Nat → Node → Option Operand
  | _, .string (some "Null") => some .null
  | depth + 1, .object [(some name, content)] =>
    match name with
    | "Literal" => (Value.ofNode? depth content).map .literal
    | "List" => (listOfNode? Value.ofNode? depth content).map .list
    | "Null" => if content matches .null then some .null else none
    | "Subquery" => (Query.ofNode? depth content).map .subquery
    | _ => none
  | _, _ => none

def Condition.ofNode? : Nat → Node → Option Condition
  | depth + 1, .object [(some name, content)] =>
    match name with
    | "Compare" => Condition.compareOfNode? depth content
    | "Spec" => Condition.specOfNode? depth content
    | "Group" => Condition.groupOfNode? depth content
    | _ => none
  | _, _ => none

def Condition.compareOfNode? : Nat → Node → Option Condition
  | depth + 1, node => do
    match ← Condition.compareShape.read? node with
    | [some field, some op, some operand] =>
      return .compare (← Field.ofNode? depth field) (← Operator.ofNode? depth op)
        (← Operand.ofNode? depth operand)
    | _ => none
  | 0, _ => none

def Condition.specOfNode? : Nat → Node → Option Condition
  | depth + 1, node => do
    match ← Condition.specShape.read? node with
    | [some spec, some operand] => return .spec (← spec.text?) (← Operand.ofNode? depth operand)
    | _ => none
  | 0, _ => none

def Condition.groupOfNode? : Nat → Node → Option Condition
  | depth + 1, node => do
    match ← Condition.groupShape.read? node with
    | [some op, some conditions] =>
      return .group (← Node.unit? LogicalOp.names depth op)
        (← Condition.listOfNode? depth conditions)
    | _ => none
  | 0, _ => none

def Condition.listOfNode? : Nat → Node → Option (List Condition)
  | depth + 1, .array items => items.mapM (Condition.ofNode? depth)
  | _, _ => none

/-- The query that a node stores. -/
def Query.ofNode? : Nat → Node → Option Query
  | depth + 1, node => do
    match ← Query.shape.read? node with
    | [action, table, join, filter, having, orderBy, groupBy, limit, offset, upsert] =>
      return {
        action := ← Node.field? (Action.ofNode? depth) action
        table := ← Node.field? (Table.ofNode? depth) table
        join := ← Node.field? (Join.ofNode? depth) join
        filter := ← Node.field? (Condition.ofNode? depth) filter
        having := ← Node.field? (Condition.ofNode? depth) having
        orderBy := ← listOfField? OrderBy.ofNode? depth orderBy
        groupBy := ← listOfField? Field.ofNode? depth groupBy
        limit := ← Node.field? Int64.ofNode? limit
        offset := ← Node.field? Int64.ofNode? offset
        upsert := ← Node.field? (Upsert.ofNode? depth) upsert }
    | _ => none
  | 0, _ => none

end

/-- The query that a JSON text stores. -/
def Query.ofJsonText? (text : String) : Option Query :=
  (Node.read text.toList).bind (Query.ofNode? maxDepth)

end BoundSql

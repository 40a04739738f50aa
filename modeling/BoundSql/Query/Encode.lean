import BoundSql.Json.Printer
import BoundSql.Json.Shape
import BoundSql.Query
import BoundSql.Timestamp.Text

/-! # Storing queries

A query is stored as JSON text. Every part is written, also one that is not set. -/

namespace BoundSql

open Json

/-! ## Names of variants -/

def LogicalOp.names : List (String × LogicalOp) :=
  [("And", .and), ("Or", .or), ("Xor", .xor)]

def LogicalOp.node : LogicalOp → Node
  | and => .text "And"
  | or => .text "Or"
  | xor => .text "Xor"

def SortOrder.names : List (String × SortOrder) :=
  [("Asc", .asc), ("Desc", .desc)]

def SortOrder.node : SortOrder → Node
  | asc => .text "Asc"
  | desc => .text "Desc"

def JoinKind.names : List (String × JoinKind) :=
  [("Inner", .inner), ("Left", .left)]

def JoinKind.node : JoinKind → Node
  | inner => .text "Inner"
  | left => .text "Left"

def InsertMode.names : List (String × InsertMode) :=
  [("Insert", .insert), ("Ignore", .ignore), ("Replace", .replace)]

def InsertMode.node : InsertMode → Node
  | insert => .text "Insert"
  | ignore => .text "Ignore"
  | replace => .text "Replace"

def Operator.names : List (String × Operator) :=
  [("Eq", .eq), ("Neq", .neq), ("Gt", .gt), ("Gte", .gte), ("Lt", .lt), ("Lte", .lte),
    ("Like", .like), ("In", .isIn), ("NotIn", .notIn), ("Is", .is), ("IsNot", .isNot),
    ("IDiv", .intDiv), ("Div", .div), ("Mult", .mult), ("Add", .add), ("Sub", .sub),
    ("Mod", .mod)]

def Operator.node : Operator → Node
  | eq => .text "Eq"
  | neq => .text "Neq"
  | gt => .text "Gt"
  | gte => .text "Gte"
  | lt => .text "Lt"
  | lte => .text "Lte"
  | like => .text "Like"
  | isIn => .text "In"
  | notIn => .text "NotIn"
  | is => .text "Is"
  | isNot => .text "IsNot"
  | intDiv => .text "IDiv"
  | div => .text "Div"
  | mult => .text "Mult"
  | add => .text "Add"
  | sub => .text "Sub"
  | mod => .text "Mod"
  | other key => .variant "Other" (.text key)

/-! ## Values and rows -/

/-- A number; one that is not finite is lost. -/
def Binary64.node (x : Binary64) : Node :=
  if x.isFinite then .number (.ofFinite x) else .null

def Value.node : Value → Node
  | null => .text "Null"
  | bool b => .variant "Bool" (.bool b)
  | int n => .variant "Int" (.int n.toInt)
  | float x => .variant "Float" x.node
  | string s => .variant "String" (.text s)
  | bytes bs => .variant "Bytes" (.array (bs.map fun b => .int b.toNat))
  | timestamp t => .variant "Timestamp" (.text t.render)
  | json j => .variant "Json" j.node

def Row.node (row : Row) : Node :=
  .record [("entries", .array (row.entries.map fun (column, value) =>
    .array [.text column, value.node]))]

/-! ## Fields -/

mutual

def Field.node : Field → Node
  | .named name => .variant "Named" (.text name)
  | .function name args =>
    .variant "Function" (.record [("name", .text name), ("args", .array (Field.nodes args))])
  | .raw text => .variant "Raw" (.text text)

def Field.nodes : List Field → List Node
  | [] => []
  | f :: rest => Field.node f :: Field.nodes rest

end

def OrderBy.node (entry : OrderBy) : Node :=
  .record [("field", entry.field.node), ("direction", .option SortOrder.node entry.direction)]

/-! ## Queries -/

def Table.node (t : Table) : Node :=
  .record [("name", .text t.name), ("schema", .option Node.text t.schema)]

def Join.node (j : Join) : Node :=
  .record [("kind", j.kind.node), ("table", j.table.node), ("main_field", .text j.mainField),
    ("join_field", .text j.joinField)]

def Action.node : Action → Node
  | select fields => .variant "Select" (.array (fields.map Field.node))
  | update assignments => .variant "Update" assignments.node
  | insert rows mode =>
    .variant "Insert" (.record [("rows", .array (rows.map Row.node)), ("mode", mode.node)])
  | delete => .text "Delete"

def Upsert.node : Upsert → Node
  | proposed => .text "Proposed"
  | assign assignments => .variant "Assign" assignments.node

mutual

def Operand.node : Operand → Node
  | .literal value => .variant "Literal" value.node
  | .list values => .variant "List" (.array (values.map Value.node))
  | .null => .text "Null"
  | .subquery q => .variant "Subquery" (Query.node q)

def Condition.node : Condition → Node
  | .compare f op x =>
    .variant "Compare" (.record [("field", f.node), ("op", op.node), ("value", Operand.node x)])
  | .spec spec x => .variant "Spec" (.record [("spec", .text spec), ("value", Operand.node x)])
  | .group op conditions =>
    .variant "Group" (.record [("op", op.node),
      ("conditions", .array (Condition.nodes conditions))])

def Condition.nodes : List Condition → List Node
  | [] => []
  | c :: rest => Condition.node c :: Condition.nodes rest

def Condition.nodeOfOption : Option Condition → Node
  | none => .null
  | some c => Condition.node c

/-- The stored form of a query. -/
def Query.node : Query → Node
  | ⟨action, table, join, filter, having, orderBy, groupBy, limit, offset, upsert⟩ =>
    .record [
      ("action", .option Action.node action),
      ("table", .option Table.node table),
      ("join", .option Join.node join),
      ("where_clause", Condition.nodeOfOption filter),
      ("having", Condition.nodeOfOption having),
      ("order_by", .array (orderBy.map OrderBy.node)),
      ("group_by", .array (groupBy.map Field.node)),
      ("limit", .option (fun n => .int n.toInt) limit),
      ("offset", .option (fun n => .int n.toInt) offset),
      ("on_duplicate_key", .option Upsert.node upsert)]

end

/-- The JSON text of a query. -/
def Query.toJsonText (q : Query) : String :=
  q.node.render

end BoundSql

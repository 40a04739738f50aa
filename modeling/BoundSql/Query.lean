import BoundSql.Field
import BoundSql.Row

/-! # Queries

A query describes one statement. Conditions may compare a field with a query, so that queries,
conditions and operands are defined together. -/

namespace BoundSql

/-- A table, with or without the schema it belongs to. -/
structure Table where
  name : String
  schema : Option String := none
  deriving DecidableEq

/-- A second table, joined where a field of the main table equals one of its own. -/
structure Join where
  kind : JoinKind
  table : Table
  mainField : String
  joinField : String
  deriving DecidableEq

/-- What a statement does. -/
inductive Action where
  | select (fields : List Field)
  | update (assignments : Row)
  | insert (rows : List Row) (mode : InsertMode)
  | delete

/-- What an insert assigns where a key is already there. -/
inductive Upsert where
  /-- Every inserted column takes the value that was to be inserted. -/
  | proposed
  /-- Only these columns take new values. -/
  | assign (assignments : Row)

mutual

/-- The right side of a comparison. -/
inductive Operand where
  | literal (value : Value)
  | list (values : List Value)
  | null
  | subquery (query : Query)

/-- A condition on rows. A specifier is read when the query is compiled. -/
inductive Condition where
  | compare (field : Field) (op : Operator) (operand : Operand)
  | spec (spec : String) (operand : Operand)
  | group (op : LogicalOp) (conditions : List Condition)

/-- A statement to be. -/
structure Query where
  action : Option Action := none
  table : Option Table := none
  join : Option Join := none
  filter : Option Condition := none
  having : Option Condition := none
  orderBy : List OrderBy := []
  groupBy : List Field := []
  limit : Option Int64 := none
  offset : Option Int64 := none
  upsert : Option Upsert := none

end

/-- The query that says nothing yet. -/
def Query.empty : Query := {}

/-- The condition is a group. -/
def Condition.isGroup : Condition → Bool
  | group _ _ => true
  | _ => false

def Action.isInsert : Action → Bool
  | insert _ _ => true
  | _ => false

/-! ## Equality -/

/-- Whether two actions are the same, values by their equality. -/
def Action.same : Action → Action → Bool
  | select as, select bs => as == bs
  | update a, update b => a == b
  | insert as m, insert bs n => as == bs && m == n
  | delete, delete => true
  | _, _ => false

instance : BEq Action := ⟨Action.same⟩

/-- Whether two upserts are the same, values by their equality. -/
def Upsert.same : Upsert → Upsert → Bool
  | proposed, proposed => true
  | assign a, assign b => a == b
  | _, _ => false

instance : BEq Upsert := ⟨Upsert.same⟩

mutual

/-- Whether two operands are the same, values by their equality. -/
def Operand.same : Operand → Operand → Bool
  | .literal a, .literal b => a == b
  | .list as, .list bs => as == bs
  | .null, .null => true
  | .subquery a, .subquery b => Query.same a b
  | _, _ => false
termination_by structural x => x

/-- Whether two conditions are the same, values by their equality. -/
def Condition.same : Condition → Condition → Bool
  | .compare f p a, .compare g q b => f == g && p == q && Operand.same a b
  | .spec s a, .spec t b => s == t && Operand.same a b
  | .group p as, .group q bs => p == q && Condition.sameAll as bs
  | _, _ => false
termination_by structural x => x

def Condition.sameAll : List Condition → List Condition → Bool
  | [], [] => true
  | a :: as, b :: bs => Condition.same a b && Condition.sameAll as bs
  | _, _ => false
termination_by structural x => x

def Condition.sameOption : Option Condition → Option Condition → Bool
  | none, none => true
  | some a, some b => Condition.same a b
  | _, _ => false
termination_by structural x => x

/-- Whether two queries are the same, values by their equality. -/
def Query.same : Query → Query → Bool
  | ⟨action, table, join, filter, having, orderBy, groupBy, limit, offset, upsert⟩, q =>
    action == q.action && table == q.table && join == q.join &&
      Condition.sameOption filter q.filter && Condition.sameOption having q.having &&
      orderBy == q.orderBy && groupBy == q.groupBy && limit == q.limit && offset == q.offset &&
      upsert == q.upsert
termination_by structural x => x

end

instance : BEq Operand := ⟨Operand.same⟩

instance : BEq Condition := ⟨Condition.same⟩

instance : BEq Query := ⟨Query.same⟩

/-! ## Data that can be compared with -/

namespace Operand

/-- The operand of a value. Null is spelled by the dialect and binds nothing. -/
def ofValue : Value → Operand
  | .null => null
  | value => literal value

end Operand

/-- Data that has an operand. -/
class ToOperand (α : Type) where
  toOperand : α → Operand

export ToOperand (toOperand)

namespace Operand

instance : ToOperand Operand := ⟨id⟩

instance : ToOperand Value := ⟨ofValue⟩

instance : ToOperand Bool := ⟨fun b => ofValue (toValue b)⟩

instance : ToOperand Int8 := ⟨fun n => ofValue (toValue n)⟩

instance : ToOperand Int16 := ⟨fun n => ofValue (toValue n)⟩

instance : ToOperand Int32 := ⟨fun n => ofValue (toValue n)⟩

instance : ToOperand Int64 := ⟨fun n => ofValue (toValue n)⟩

instance : ToOperand UInt8 := ⟨fun n => ofValue (toValue n)⟩

instance : ToOperand UInt16 := ⟨fun n => ofValue (toValue n)⟩

instance : ToOperand UInt32 := ⟨fun n => ofValue (toValue n)⟩

instance : ToOperand Binary64 := ⟨fun x => ofValue (toValue x)⟩

instance : ToOperand Binary32 := ⟨fun x => ofValue (toValue x)⟩

instance : ToOperand String := ⟨fun s => ofValue (toValue s)⟩

instance : ToOperand Timestamp := ⟨fun t => ofValue (toValue t)⟩

instance : ToOperand Json := ⟨fun j => ofValue (toValue j)⟩

instance {α : Type} [ToValue α] : ToOperand (Option α) := ⟨fun a => ofValue (toValue a)⟩

/-- A list is an operand of many values. -/
instance {α : Type} [ToValue α] : ToOperand (List α) := ⟨fun as => list (as.map toValue)⟩

instance : ToOperand Query := ⟨subquery⟩

end Operand

end BoundSql

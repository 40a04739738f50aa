import BoundSql.Json
import BoundSql.Timestamp

/-! # Bound values -/

namespace BoundSql

/-- A value that is bound to a marker of a statement. It never becomes part of the text. -/
inductive Value where
  | null
  | bool (b : Bool)
  | int (n : Int64)
  | float (x : Binary64)
  | string (s : String)
  | bytes (bytes : List UInt8)
  | timestamp (t : Timestamp)
  | json (j : Json)

namespace Value

/-- Whether two values are equal. A NaN is not equal to itself. -/
def same : Value → Value → Bool
  | null, null => true
  | bool a, bool b => a == b
  | int a, int b => a == b
  | float a, float b => a == b
  | string a, string b => a == b
  | bytes a, bytes b => a == b
  | timestamp a, timestamp b => a == b
  | json a, json b => a == b
  | _, _ => false

instance : BEq Value := ⟨same⟩

/-- The value is null. -/
def isNull : Value → Bool
  | null => true
  | _ => false

end Value

/-! ## Data that can be bound -/

/-- Data that has a value. -/
class ToValue (α : Type) where
  toValue : α → Value

export ToValue (toValue)

namespace Value

/-- The value of a number that fits in 64 bits. -/
def ofInt (n : Int) : Value :=
  int (Int64.ofInt n)

instance : ToValue Value := ⟨id⟩

instance : ToValue Bool := ⟨bool⟩

instance : ToValue Int8 := ⟨fun n => ofInt n.toInt⟩

instance : ToValue Int16 := ⟨fun n => ofInt n.toInt⟩

instance : ToValue Int32 := ⟨fun n => ofInt n.toInt⟩

instance : ToValue Int64 := ⟨int⟩

instance : ToValue UInt8 := ⟨fun n => ofInt n.toNat⟩

instance : ToValue UInt16 := ⟨fun n => ofInt n.toNat⟩

instance : ToValue UInt32 := ⟨fun n => ofInt n.toNat⟩

instance : ToValue Binary64 := ⟨float⟩

/-- A shorter number is bound as the longer one of the same value. -/
instance : ToValue Binary32 := ⟨fun x => float (.ofBinary32 x.bits)⟩

instance : ToValue String := ⟨string⟩

instance : ToValue Timestamp := ⟨timestamp⟩

instance : ToValue Json := ⟨json⟩

/-- Bytes have a value as a whole. -/
instance : ToValue (List UInt8) := ⟨bytes⟩

/-- What is missing is null. -/
instance {α : Type} [ToValue α] : ToValue (Option α) :=
  ⟨fun
    | some a => toValue a
    | none => null⟩

end Value

end BoundSql

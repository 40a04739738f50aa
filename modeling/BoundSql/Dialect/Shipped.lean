import BoundSql.Dialect
import BoundSql.Identifier

/-! # The shipped dialects -/

namespace BoundSql

/-- A dialect of the library. -/
inductive ShippedDialect where
  | mysql
  | ansi
  deriving DecidableEq

namespace ShippedDialect

instance : Inhabited ShippedDialect := ⟨mysql⟩

/-- The name of a shipped dialect. -/
def key : ShippedDialect → String
  | mysql => "mysql"
  | ansi => "ansi"

/-- MySQL compares for equality with an operator that takes null for a value. -/
def mysqlOperator : Operator → Except LookupError String
  | .eq => .ok "<=>"
  | op => op.standard

/-- MySQL writes identifiers between backticks, the standard between double quotes. -/
def dialect : ShippedDialect → Dialect
  | mysql => { name := "mysql", quote := Identifier.quote '\x60', operator := mysqlOperator }
  | ansi => { name := "ansi", quote := Identifier.quote '"' }

/-- The shipped dialect with exactly the given name. -/
def ofKey? (key : String) : Option ShippedDialect :=
  [mysql, ansi].find? fun d => d.key == key

/-- The text with its ASCII letters in lower case. -/
def lowerCase (s : String) : String :=
  String.ofList (s.toList.map Char.toLower)

/-- The shipped dialect with the given name in any case. -/
def parse (name : String) : Except QueryError ShippedDialect :=
  match ofKey? (lowerCase name) with
  | some d => .ok d
  | none => .error (.unknownDialect (lowerCase name))

end ShippedDialect

end BoundSql

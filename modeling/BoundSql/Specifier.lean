import BoundSql.Field

/-! # Specifiers

A specifier names a field and an operator in one text, `column__op` or `column__function__op`. -/

namespace BoundSql.Specifier

/-- The parts of a text between the places where two underscores stand together, taken from the
left. `part` holds what has been read of the present part, last character first. -/
def splitFrom (part : List Char) : List Char → List (List Char)
  | '_' :: '_' :: rest => part.reverse :: splitFrom [] rest
  | c :: rest => splitFrom (c :: part) rest
  | [] => [part.reverse]

/-- The parts of a specifier. -/
def parts (spec : List Char) : List (List Char) :=
  splitFrom [] spec

/-- The field and the operator that a specifier names. There are two or three parts, none of
them empty. -/
def parse? (spec : List Char) : Option (Field × Operator) :=
  match parts spec with
  | [column, op] =>
    if column.isEmpty || op.isEmpty then none
    else some (.named (String.ofList column), Operator.ofKey (String.ofList op))
  | [column, function, op] =>
    if column.isEmpty || function.isEmpty || op.isEmpty then none
    else some (.function (String.ofList function) [.named (String.ofList column)],
      Operator.ofKey (String.ofList op))
  | _ => none

/-- The field and the operator that a specifier names, or the error that names the specifier. -/
def parse (spec : String) : Except QueryError (Field × Operator) :=
  match parse? spec.toList with
  | some found => .ok found
  | none => .error (.malformedSpecifier spec)

end BoundSql.Specifier

import BoundSql.Error

/-! # Operators and the closed choices of a statement -/

namespace BoundSql

/-- An operator between a field and its operand. A key outside the known set is kept, for the
dialect to accept or refuse. -/
inductive Operator where
  | eq | neq | gt | gte | lt | lte | like | isIn | notIn | is | isNot
  | intDiv | div | mult | add | sub | mod
  | other (key : String)
  deriving DecidableEq

namespace Operator

/-- The key of an operator, as a specifier spells it. -/
def key : Operator → String
  | eq => "eq"
  | neq => "neq"
  | gt => "gt"
  | gte => "gte"
  | lt => "lt"
  | lte => "lte"
  | like => "like"
  | isIn => "in"
  | notIn => "not_in"
  | is => "is"
  | isNot => "isnot"
  | intDiv => "idiv"
  | div => "div"
  | mult => "mult"
  | add => "add"
  | sub => "sub"
  | mod => "mod"
  | other key => key

/-- The operators of the known set. -/
def known : List Operator :=
  [eq, neq, gt, gte, lt, lte, like, isIn, notIn, is, isNot, intDiv, div, mult, add, sub, mod]

/-- The operator with the given key. -/
def ofKey (key : String) : Operator :=
  (known.find? fun op => op.key == key).getD (other key)

/-- The usual spelling of an operator; one outside the known set has none. -/
def standard : Operator → Except LookupError String
  | eq => .ok "="
  | neq => .ok "<>"
  | gt => .ok ">"
  | gte => .ok ">="
  | lt => .ok "<"
  | lte => .ok "<="
  | like => .ok "LIKE"
  | isIn => .ok "IN"
  | notIn => .ok "NOT IN"
  | is => .ok "IS"
  | isNot => .ok "IS NOT"
  | intDiv => .ok "DIV"
  | div => .ok "/"
  | mult => .ok "*"
  | add => .ok "+"
  | sub => .ok "-"
  | mod => .ok "%"
  | other key => .error (.operator key)

theorem ofKey_key_of_known {op : Operator} (h : op ∈ known) : ofKey op.key = op := by
  simp only [known, List.mem_cons, List.not_mem_nil, or_false] at h
  rcases h with h | h | h | h | h | h | h | h | h | h | h | h | h | h | h | h | h <;>
    subst h <;> decide

end Operator

/-- What joins the conditions of a group. -/
inductive LogicalOp where
  | and | or | xor
  deriving DecidableEq, Inhabited

/-- The direction of an ordering. -/
inductive SortOrder where
  | asc | desc
  deriving DecidableEq

/-- How a second table is joined. -/
inductive JoinKind where
  | inner | left
  deriving DecidableEq, Inhabited

/-- The key of a kind of join. -/
def JoinKind.key : JoinKind → String
  | inner => "inner"
  | left => "left"

/-- How an insert treats rows whose keys are already there. -/
inductive InsertMode where
  | insert | ignore | replace
  deriving DecidableEq, Inhabited

/-- The key of an insert mode. -/
def InsertMode.key : InsertMode → String
  | insert => "insert"
  | ignore => "insert_ignore"
  | replace => "replace"

end BoundSql

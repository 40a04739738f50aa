import BoundSql.Query
import BoundSql.Specifier

/-! # Texts that are written as they are

Raw texts and the names of functions come into a statement unquoted. Here every raw text of a
query has one property, and the name of every function another. -/

namespace BoundSql

variable (raw function : String → Prop)

mutual

/-- The raw texts and the function names of a field. -/
def Field.Verbatim : Field → Prop
  | .named _ => True
  | .function name args => function name ∧ Field.AllVerbatim args
  | .raw text => raw text
termination_by structural x => x

def Field.AllVerbatim : List Field → Prop
  | [] => True
  | f :: rest => f.Verbatim ∧ Field.AllVerbatim rest
termination_by structural x => x

end

mutual

theorem Field.verbatim_any : (f : Field) → f.Verbatim (fun _ => True) (fun _ => True)
  | .named _ => trivial
  | .function _ args => ⟨trivial, Field.allVerbatim_any args⟩
  | .raw _ => trivial
termination_by structural x => x

theorem Field.allVerbatim_any : (fs : List Field) →
    Field.AllVerbatim (fun _ => True) (fun _ => True) fs
  | [] => trivial
  | f :: rest => ⟨f.verbatim_any, Field.allVerbatim_any rest⟩
termination_by structural x => x

end

/-- Only selected fields come into a statement unquoted. -/
def Action.Verbatim : Action → Prop
  | .select fields => Field.AllVerbatim raw function fields
  | .update _ | .insert _ _ | .delete => True

theorem Action.verbatim_any (a : Action) : a.Verbatim (fun _ => True) (fun _ => True) := by
  cases a with
  | select fields => exact Field.allVerbatim_any fields
  | _ => trivial

mutual

def Operand.Verbatim : Operand → Prop
  | .literal _ | .list _ | .null => True
  | .subquery q => q.Verbatim
termination_by structural x => x

/-- The raw texts and the function names of a condition. A specifier may name a function, too. -/
def Condition.Verbatim : Condition → Prop
  | .compare f _ x => f.Verbatim raw function ∧ x.Verbatim
  | .spec spec x =>
    (∀ f op, Specifier.parse spec = .ok (f, op) → f.Verbatim raw function) ∧ x.Verbatim
  | .group _ conditions => Condition.AllVerbatim conditions
termination_by structural x => x

def Condition.AllVerbatim : List Condition → Prop
  | [] => True
  | c :: rest => c.Verbatim ∧ Condition.AllVerbatim rest
termination_by structural x => x

def Condition.OptionVerbatim : Option Condition → Prop
  | none => True
  | some c => c.Verbatim
termination_by structural x => x

/-- The raw texts and the function names of a query and of the queries nested in it. -/
def Query.Verbatim : Query → Prop
  | ⟨action, _, _, filter, having, orderBy, groupBy, _, _, _⟩ =>
    (∀ a, action = some a → a.Verbatim raw function) ∧ Condition.OptionVerbatim filter ∧
      Field.AllVerbatim raw function groupBy ∧ Condition.OptionVerbatim having ∧
      Field.AllVerbatim raw function (orderBy.map OrderBy.field)
termination_by structural x => x

end

end BoundSql

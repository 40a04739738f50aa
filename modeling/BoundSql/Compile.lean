import BoundSql.Clause
import BoundSql.Specifier
import BoundSql.Statement

/-! # Compiling queries

A query is lowered to pieces, and the pieces are written in a dialect. Nested queries draw their
aliases from the supply of the query around them. -/

namespace BoundSql

open Piece (bracketed separated)
open Statement

/-- A step of a compile. It may draw aliases, and it may fail; the aliases drawn until then stay
drawn. -/
abbrev Compile := ExceptT QueryError (StateM AliasSupply)

namespace Compile

/-- A step that draws no aliases. -/
def lift {α : Type} (result : Except QueryError α) : Compile α :=
  ExceptT.mk (pure result)

/-- The scope of a statement, its aliases drawn. -/
def enter (table : Option Table) (join : Option Join) : Compile Scope := do
  match Scope.enter? table join (← get) with
  | none => throw .missingTable
  | some (s, supply) =>
    set supply
    return s

/-- A comparison between brackets. The operator is looked up before the field. -/
def comparison (v : Vocabulary) (s : Scope) (f : Field) (op : Operator)
    (operand : Compile (List Piece)) : Compile (List Piece) := do
  let word ← lift (lookup (v.operator op))
  let left ← lift (field v s f)
  let right ← operand
  return bracketed (left ++ .word word :: right)

mutual

/-- The right side of a comparison. -/
def operand (v : Vocabulary) : Operand → Compile (List Piece)
  | .literal value => pure [.slot value]
  | .list values =>
    if values.isEmpty then throw .emptyList
    else pure (bracketed (separated "," (values.map fun value => [.slot value])))
  | .null => pure [.word v.null]
  | .subquery q => do
    let body ← query v q
    return [.nested body]

/-- A condition. A group stands bare; what holds it puts brackets around it. -/
def condition (v : Vocabulary) (s : Scope) : Condition → Compile (List Piece)
  | .compare f op x => comparison v s f op (operand v x)
  | .spec spec x => do
    let (f, op) ← lift (Specifier.parse spec)
    comparison v s f op (operand v x)
  | .group op conditions =>
    if conditions.isEmpty then throw (.emptyGroup (v.logical op))
    else do
      let parts ← children v s conditions
      return separated (v.logical op) parts

/-- The conditions of a group one by one, groups among them between brackets. -/
def children (v : Vocabulary) (s : Scope) : List Condition → Compile (List (List Piece))
  | [] => pure []
  | c :: rest => do
    let part ← condition v s c
    let parts ← children v s rest
    return (if c.isGroup then bracketed part else part) :: parts

/-- A condition after a word, or nothing. -/
def conditionClause (v : Vocabulary) (s : Scope) (word : String) :
    Option Condition → Compile (List Piece)
  | none => pure []
  | some c => do
    let part ← condition v s c
    return .word word :: part

/-- A statement: its verb, then WHERE, GROUP BY, HAVING, ORDER BY, OFFSET and LIMIT. -/
def query (v : Vocabulary) : Query → Compile (List Piece)
  | ⟨action, table, join, filter, having, orderBy, groupBy, limit, offset, upsert⟩ => do
    let s ← enter table join
    let verb ← lift (verbClause v s action upsert)
    let filterPart ← conditionClause v s "WHERE" filter
    let groupPart ← lift (groupByClause v s groupBy)
    let havingPart ← conditionClause v s "HAVING" having
    let orderPart ← lift (orderByClause v s orderBy)
    return verb ++ filterPart ++ groupPart ++ havingPart ++ orderPart ++
      offsetClause offset ++ limitClause limit

end

/-- The result of a compile, and the supply after it. -/
def runFrom {α : Type} (step : Compile α) (supply : AliasSupply) :
    Except QueryError α × AliasSupply :=
  step.run.run supply

end Compile

namespace Query

/-- The pieces of a query whose aliases start at a position of the supply. -/
def lower (v : Vocabulary) (q : Query) (supply : AliasSupply) :
    Except QueryError (List Piece) × AliasSupply :=
  (Compile.query v q).runFrom supply

/-- The clause of a query whose aliases start at a position of the supply. -/
def compile (d : Dialect) (q : Query) (supply : AliasSupply) :
    Except QueryError Clause × AliasSupply :=
  let (result, after) := q.lower d.toVocabulary supply
  (result.map (Clause.ofPieces d), after)

/-- The text of a query and its arguments. -/
def toSql (d : Dialect) (q : Query) : Except QueryError (String × List Value) :=
  (q.compile d {}).1.map fun clause => (clause.sql, clause.args)

end Query

end BoundSql

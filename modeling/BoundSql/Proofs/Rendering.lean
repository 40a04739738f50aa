import BoundSql.Proofs.Joining
import BoundSql.Proofs.Numbering
import BoundSql.Proofs.Quoting

/-! # Statements rendered as text

The text of a query can be written down clause by clause, without tokens between which spaces have
to be placed. Where raw texts and function names do not take part in the spacing, this is the text
that the query compiles to. -/

namespace BoundSql

/-- The texts that are not empty, with a space between every two of them. -/
def sentence (texts : List String) : String :=
  " ".intercalate (texts.filter (· ≠ ""))

namespace ShippedDialect

variable (k : ShippedDialect)

/-! ## Names and fields -/

def nameText (name : String) : String :=
  Identifier.quote k.mark name

def columnText (a : Alias) (column : String) : String :=
  k.nameText a.name ++ "." ++ k.nameText column

def tableText (t : Table) : String :=
  match t.schema with
  | some schema => k.nameText schema ++ "." ++ k.nameText t.name
  | none => k.nameText t.name

def sourceText (t : Table) (a : Alias) : String :=
  k.tableText t ++ " AS " ++ k.nameText a.name

/-- A column of a table, by a name that may start with that of the table. -/
def tableColumnText (t : Table) (a : Alias) (name : String) : String :=
  k.columnText a ((Scope.columnOf? t.name name).getD name)

def mainColumnText (s : Scope) (name : String) : String :=
  k.tableColumnText s.table s.mainAlias name

/-- The column that a name means in a scope. -/
def resolvedText (s : Scope) (name : String) : String :=
  match s.join with
  | some (join, joinAlias) =>
    match Scope.columnOf? join.table.name name with
    | some column => k.columnText joinAlias column
    | none => k.mainColumnText s name
  | none => k.mainColumnText s name

mutual

def fieldText (s : Scope) : Field → String
  | .named name => k.resolvedText s name
  | .function name args =>
    Vocabulary.functionWord name ++ ("(" ++ ", ".intercalate (fieldTexts s args) ++ ")")
  | .raw text => text

def fieldTexts (s : Scope) : List Field → List String
  | [] => []
  | f :: rest => fieldText s f :: fieldTexts s rest

end

/-! ## Clauses -/

def joinText (s : Scope) : String :=
  match s.join with
  | none => ""
  | some (join, joinAlias) =>
    sentence [Vocabulary.joinWord join.kind, k.sourceText join.table joinAlias, "ON",
      k.mainColumnText s join.mainField, "=",
      k.tableColumnText join.table joinAlias join.joinField]

/-- A word and a list behind it, if there is anything in the list. -/
def listText (word : String) (texts : List String) : String :=
  if texts = [] then "" else word ++ " " ++ ", ".intercalate texts

def orderText (s : Scope) (entry : OrderBy) : String :=
  match entry.direction with
  | none => k.fieldText s entry.field
  | some direction => k.fieldText s entry.field ++ " " ++ Vocabulary.sortWord direction

def countText (word : String) : Option Int64 → String
  | none => ""
  | some _ => word ++ " %s"

def assignmentTexts (column : String → String) (entries : List (String × Value)) : List String :=
  entries.map fun (name, _) => column name ++ " = %s"

def upsertText (columns : List String) : Option Upsert → String
  | none => ""
  | some .proposed =>
    sentence ["ON DUPLICATE KEY UPDATE", ", ".intercalate (columns.map fun column =>
      k.nameText column ++ " = VALUES(" ++ k.nameText column ++ ")")]
  | some (.assign assignments) =>
    sentence ["ON DUPLICATE KEY UPDATE",
      ", ".intercalate (assignmentTexts k.nameText assignments.entries)]

/-- The texts between brackets, with commas between them. -/
def tupleText (texts : List String) : String :=
  "(" ++ ", ".intercalate texts ++ ")"

def insertText (s : Scope) (mode : InsertMode) (upsert : Option Upsert) : List Row → String
  | [] => ""
  | first :: rest =>
    sentence [Vocabulary.insertWord mode, k.tableText s.table,
      tupleText (first.columns.map k.nameText), "VALUES",
      ", ".intercalate ((first :: rest).map fun _ => tupleText (first.columns.map fun _ => "%s")),
      k.upsertText first.columns upsert]

def verbText (s : Scope) (upsert : Option Upsert) : Action → String
  | .select fields =>
    sentence ["SELECT", ", ".intercalate (k.fieldTexts s fields), "FROM",
      k.sourceText s.table s.mainAlias, k.joinText s]
  | .update assignments =>
    sentence ["UPDATE", k.sourceText s.table s.mainAlias, k.joinText s, "SET",
      ", ".intercalate (assignmentTexts (k.mainColumnText s) assignments.entries)]
  | .insert rows mode => k.insertText s mode upsert rows
  | .delete =>
    sentence ["DELETE", if s.join.isSome then k.nameText s.mainAlias.name else "", "FROM",
      k.sourceText s.table s.mainAlias, k.joinText s]

/-! ## Conditions and queries -/

def operatorText (op : Operator) : String :=
  match k.dialect.operator op with
  | .ok word => word
  | .error _ => ""

/-- A comparison, given the text of its right side. -/
def comparisonText (s : Scope) (f : Field) (op : Operator) (right : String) : String :=
  "(" ++ (k.fieldText s f ++ " " ++ k.operatorText op ++ " " ++ right) ++ ")"

mutual

def operandText (supply : AliasSupply) : Operand → String
  | .literal _ => "%s"
  | .list values => "(" ++ ",".intercalate (values.map fun _ => "%s") ++ ")"
  | .null => "NULL"
  | .subquery q => "(" ++ queryText supply q ++ ")"
termination_by structural x => x

/-- A condition whose nested queries draw their aliases from the supply. -/
def conditionText (s : Scope) (supply : AliasSupply) : Condition → String
  | .compare f op x => k.comparisonText s f op (operandText supply x)
  | .spec spec x =>
    match Specifier.parse spec with
    | .ok (f, op) => k.comparisonText s f op (operandText supply x)
    | .error _ => ""
  | .group op conditions =>
    (" " ++ Vocabulary.logicalWord op ++ " ").intercalate (childTexts s supply conditions)
termination_by structural x => x

/-- Every condition draws its aliases behind those of the conditions before it. -/
def childTexts (s : Scope) (supply : AliasSupply) : List Condition → List String
  | [] => []
  | c :: rest =>
    (if c.isGroup then "(" ++ conditionText s supply c ++ ")" else conditionText s supply c) ::
      childTexts s (supply.skip (references c.statements).length) rest
termination_by structural x => x

def conditionClauseText (s : Scope) (supply : AliasSupply) (word : String) :
    Option Condition → String
  | none => ""
  | some c => word ++ " " ++ conditionText s supply c
termination_by structural x => x

/-- The text of a query whose aliases are drawn from the supply. -/
def queryText (supply : AliasSupply) : Query → String
  | ⟨action, table, join, filter, having, orderBy, groupBy, limit, offset, upsert⟩ =>
    match Scope.enter? table join supply with
    | none => ""
    | some (s, entered) =>
      sentence [(action.map (k.verbText s upsert)).getD "",
        conditionClauseText s entered "WHERE" filter,
        listText "GROUP BY" (k.fieldTexts s groupBy),
        conditionClauseText s
          (entered.skip (references (Condition.optionStatements filter)).length) "HAVING" having,
        listText "ORDER BY" (orderBy.map (k.orderText s)),
        countText "OFFSET" offset,
        countText "LIMIT" limit]
termination_by structural x => x

end

end ShippedDialect

end BoundSql

import BoundSql.Proofs.Lowering.Compile
import BoundSql.Proofs.Lowering.Written

/-! # The tables and columns that a statement mentions

Which tables and columns stand in a statement, and in which order, is read off the query: those of
its verb come first, and then those of the clauses behind the verb. -/

namespace BoundSql

/-! ## The columns that a query names -/

mutual

/-- The names of the columns in a field, from left to right. -/
def Field.columns : Field → List String
  | .named name => [name]
  | .function _ args => Field.allColumns args
  | .raw _ => []
termination_by structural x => x

def Field.allColumns : List Field → List String
  | [] => []
  | f :: rest => f.columns ++ Field.allColumns rest
termination_by structural x => x

end

mutual

/-- The names of the columns in a condition, but for the statements nested in it. -/
def Condition.columns : Condition → List String
  | .compare f _ _ => f.columns
  | .spec text _ =>
    match Specifier.parse text with
    | .ok (f, _) => f.columns
    | .error _ => []
  | .group _ conditions => Condition.allColumns conditions
termination_by structural x => x

def Condition.allColumns : List Condition → List String
  | [] => []
  | c :: rest => c.columns ++ Condition.allColumns rest
termination_by structural x => x

end

def Condition.optionColumns : Option Condition → List String
  | none => []
  | some c => c.columns

/-- The names of the columns in the clauses behind the verb: WHERE, GROUP BY, HAVING and
ORDER BY. -/
def Query.clauseColumns (q : Query) : List String :=
  Condition.optionColumns q.filter ++ Field.allColumns q.groupBy ++
    Condition.optionColumns q.having ++ Field.allColumns (q.orderBy.map OrderBy.field)

namespace Piece

/-! ## Mentions of pieces -/

/-- The piece is a table or a column. -/
def isMention : Piece → Bool
  | table _ | source _ _ | target _ | column _ _ | name _ | proposed _ => true
  | word _ | call _ | slot _ | nested _ => false

/-- The tables and columns among pieces, without those of nested statements. -/
def mentions (pieces : List Piece) : List Piece :=
  pieces.filter isMention

variable (left right body rest : List Piece)

@[simp] theorem mentions_nil : mentions [] = [] :=
  List.filter_nil

theorem mentions_cons {piece : Piece} (h : piece.isMention = true) :
    mentions (piece :: rest) = piece :: mentions rest :=
  List.filter_cons_of_pos h

theorem mentions_cons_of_not {piece : Piece} (h : piece.isMention = false) :
    mentions (piece :: rest) = mentions rest :=
  List.filter_cons_of_neg (by simp [h])

@[simp] theorem mentions_append : mentions (left ++ right) = mentions left ++ mentions right :=
  List.filter_append left right

@[simp] theorem mentions_source_cons (t : Table) (a : Alias) :
    mentions (.source t a :: rest) = .source t a :: mentions rest :=
  mentions_cons rest rfl

@[simp] theorem mentions_table_cons (t : Table) :
    mentions (.table t :: rest) = .table t :: mentions rest :=
  mentions_cons rest rfl

@[simp] theorem mentions_name_cons (own : String) :
    mentions (.name own :: rest) = .name own :: mentions rest :=
  mentions_cons rest rfl

@[simp] theorem mentions_proposed_cons (own : String) :
    mentions (.proposed own :: rest) = .proposed own :: mentions rest :=
  mentions_cons rest rfl

@[simp] theorem mentions_word_cons (text : String) :
    mentions (.word text :: rest) = mentions rest :=
  mentions_cons_of_not rest rfl

@[simp] theorem mentions_call_cons (function : String) :
    mentions (.call function :: rest) = mentions rest :=
  mentions_cons_of_not rest rfl

@[simp] theorem mentions_slot_cons (value : Value) :
    mentions (.slot value :: rest) = mentions rest :=
  mentions_cons_of_not rest rfl

@[simp] theorem mentions_bracketed : mentions (bracketed body) = mentions body := by
  simp [bracketed]

@[simp] theorem mentions_separated (word : String) (parts : List (List Piece)) :
    mentions (separated word parts) = parts.flatMap mentions := by
  induction parts with
  | nil => rfl
  | cons part rest ih =>
      cases rest with
      | nil => simp
      | cons next rest =>
          rw [separated_cons_cons, mentions_append, mentions_word_cons, ih]
          rfl

/-- Single mentions in a row. -/
theorem mentions_singles {α : Type} (word : String) (piece : α → Piece)
    (h : ∀ a, (piece a).isMention = true) (as : List α) :
    mentions (separated word (as.map fun a => [piece a])) = as.map piece := by
  rw [mentions_separated, List.flatMap_map, List.map_eq_flatMap]
  exact congrArg (as.flatMap ·) (funext fun a => mentions_cons [] (h a))

theorem mem_mentions {piece : Piece} {pieces : List Piece} :
    piece ∈ mentions pieces ↔ piece ∈ pieces ∧ piece.isMention = true :=
  List.mem_filter

end Piece

theorem Scope.resolve_isMention (s : Scope) (name : String) :
    (s.resolve name).isMention = true := by
  unfold resolve
  split
  · split <;> rfl
  · rfl

/-- The joined table and the two columns at which it is joined. -/
def Scope.joinMentions (s : Scope) : List Piece :=
  match s.join with
  | none => []
  | some (join, a) =>
    [.source join.table a, s.mainColumn join.mainField, tableColumn join.table a join.joinField]

namespace Statement

open Piece (mentions)

variable {v : Vocabulary} {s : Scope} {pieces : List Piece}

/-- The columns that an upsert assigns, each with what it takes where that is a column, too. -/
def upsertMentions (upsert : Option Upsert) (columns : List String) : List Piece :=
  match upsert with
  | none => []
  | some .proposed => columns.flatMap fun column => [.name column, .proposed column]
  | some (.assign assignments) => assignments.columns.map .name

/-- The tables and columns in the clause of a verb. -/
def actionMentions (s : Scope) (upsert : Option Upsert) : Action → List Piece
  | .select fields =>
    (Field.allColumns fields).map s.resolve ++ .source s.table s.mainAlias :: s.joinMentions
  | .update assignments =>
    .source s.table s.mainAlias :: (s.joinMentions ++ assignments.columns.map s.mainColumn)
  | .insert [] _ => []
  | .insert (first :: _) _ =>
    .table s.table :: (first.columns.map .name ++ upsertMentions upsert first.columns)
  | .delete =>
    (if s.join.isSome then [.target s.mainAlias] else []) ++
      .source s.table s.mainAlias :: s.joinMentions

/-! ## Fields -/

mutual

theorem mentions_field : (f : Field) → {pieces : List Piece} → field v s f = .ok pieces →
    mentions pieces = f.columns.map s.resolve
  | .named name, pieces, h => by
      cases h
      exact Piece.mentions_cons [] (s.resolve_isMention name)
  | .function name args, pieces, h => by
      obtain ⟨word, -, parts, hparts, rfl⟩ := field_function_ok.mp h
      simpa [Field.columns] using mentions_fields args hparts
  | .raw text, pieces, h => by
      cases h
      rfl
termination_by structural x => x

theorem mentions_fields : (fs : List Field) → {parts : List (List Piece)} →
    fields v s fs = .ok parts → parts.flatMap mentions = (Field.allColumns fs).map s.resolve
  | [], parts, h => by
      cases h
      rfl
  | f :: rest, parts, h => by
      obtain ⟨part, hpart, others, hothers, rfl⟩ := fields_cons_ok.mp h
      rw [List.flatMap_cons, mentions_field f hpart, mentions_fields rest hothers,
        Field.allColumns, List.map_append]
termination_by structural x => x

end

/-! ## Clauses that verbs share -/

theorem mentions_joinClause (h : joinClause v s = .ok pieces) :
    mentions pieces = s.joinMentions := by
  unfold Scope.joinMentions
  cases hjoin : s.join with
  | none =>
      rw [joinClause_none hjoin] at h
      cases h
      rfl
  | some joined =>
      obtain ⟨join, a⟩ := joined
      obtain ⟨word, -, rfl⟩ := (joinClause_some_ok hjoin).mp h
      rfl

theorem mentions_groupByClause {groupBy : List Field} (h : groupByClause v s groupBy = .ok pieces) :
    mentions pieces = (Field.allColumns groupBy).map s.resolve := by
  obtain ⟨parts, hparts, rfl⟩ := groupByClause_ok.mp h
  split
  case isTrue hnone =>
      subst hnone
      rfl
  case isFalse => simpa using mentions_fields groupBy hparts

theorem mentions_orderings {entries : List OrderBy} {parts : List (List Piece)}
    (h : orderings v s entries = .ok parts) :
    parts.flatMap mentions = (Field.allColumns (entries.map OrderBy.field)).map s.resolve := by
  induction entries generalizing parts with
  | nil =>
      cases h
      rfl
  | cons entry rest ih =>
      obtain ⟨part, hpart, others, hothers, rfl⟩ := orderings_cons_ok.mp h
      obtain ⟨written, hwritten, rfl⟩ := ordering_ok.mp hpart
      have hdirection : mentions (entry.direction.toList.map fun o => .word (v.sortOrder o)) =
          [] := by
        cases entry.direction <;> rfl
      rw [List.flatMap_cons, Piece.mentions_append, mentions_field entry.field hwritten, hdirection,
        ih hothers, List.append_nil, List.map_cons, Field.allColumns, List.map_append]

theorem mentions_orderByClause {orderBy : List OrderBy}
    (h : orderByClause v s orderBy = .ok pieces) :
    mentions pieces = (Field.allColumns (orderBy.map OrderBy.field)).map s.resolve := by
  obtain ⟨parts, hparts, rfl⟩ := orderByClause_ok.mp h
  split
  case isTrue hnone =>
      subst hnone
      rfl
  case isFalse => simpa using mentions_orderings hparts

theorem mentions_countClause (word : String) (n : Option Int64) :
    mentions (countClause word n) = [] := by
  cases n <;> rfl

/-! ## Verbs -/

theorem mentions_assignments (column : String → Piece) (hcolumn : ∀ name, (column name).isMention)
    (entries : List (String × Value)) :
    mentions (Piece.separated ", "
        (entries.map fun (name, value) => assignment (column name) value)) =
      entries.map fun (name, _) => column name := by
  rw [Piece.mentions_separated, List.flatMap_map, List.map_eq_flatMap]
  exact congrArg (entries.flatMap ·) (funext fun entry => Piece.mentions_cons _ (hcolumn entry.1))

theorem mentions_upsertClause (upsert : Option Upsert) (columns : List String) :
    mentions (upsertClause v upsert columns) = upsertMentions upsert columns := by
  rcases upsert with _ | _ | assignments
  · rfl
  · simp [upsertClause, upsertMentions, List.flatMap_map]
  · rw [upsertClause, Piece.mentions_word_cons,
      mentions_assignments Piece.name (fun _ => rfl), upsertMentions, Row.columns, List.map_map]
    rfl

theorem mentions_tuple (columns : List String) (row : Row) : mentions (tuple columns row) = [] := by
  simp [tuple, List.flatMap_map]

theorem mentions_actionClause {upsert : Option Upsert} {action : Action}
    (h : actionClause v s upsert action = .ok pieces) :
    mentions pieces = actionMentions s upsert action := by
  cases action with
  | select fields =>
      obtain ⟨-, parts, hparts, join, hjoin, rfl⟩ := selectClause_ok.mp h
      simp [mentions_fields fields hparts, mentions_joinClause hjoin, actionMentions]
  | update assignments =>
      obtain ⟨-, join, hjoin, rfl⟩ := updateClause_ok.mp h
      have hassigned := mentions_assignments s.mainColumn (fun _ => rfl) assignments.entries
      simp [hassigned, mentions_joinClause hjoin, actionMentions, Row.columns]
  | insert rows mode =>
      cases rows with
      | nil => cases h
      | cons first rest =>
          obtain ⟨-, -, word, -, -, rfl⟩ := insertClause_ok.mp h
          have hcolumns := Piece.mentions_singles ", " Piece.name (fun _ => rfl) first.columns
          have htuples : mentions (Piece.separated ", " ((first :: rest).map (tuple first.columns)))
              = [] := by
            simp [List.flatMap_map, mentions_tuple]
          rw [Piece.mentions_word_cons, Piece.mentions_table_cons, Piece.mentions_append,
            Piece.mentions_bracketed, hcolumns, Piece.mentions_word_cons, Piece.mentions_append,
            htuples, mentions_upsertClause, actionMentions]
          rfl
  | delete =>
      obtain ⟨join, hjoin, rfl⟩ := deleteClause_ok.mp h
      have htarget : mentions (if s.join.isSome then [.target s.mainAlias] else []) =
          if s.join.isSome then [.target s.mainAlias] else [] := by
        split <;> rfl
      rw [Piece.mentions_word_cons, Piece.mentions_append, htarget, Piece.mentions_word_cons,
        Piece.mentions_source_cons, mentions_joinClause hjoin]
      rfl

end Statement

/-! ## Conditions and statements -/

namespace Compile

open Statement
open Piece (mentions)

variable {v : Vocabulary} {s : Scope} {supply after : AliasSupply} {pieces : List Piece}

/-- The right side of a comparison mentions nothing; a statement in it speaks for itself. -/
theorem mentions_operand {x : Operand} (h : (operand v x).runFrom supply = (.ok pieces, after)) :
    mentions pieces = [] := by
  cases x with
  | literal value =>
      cases h
      rfl
  | list values =>
      obtain ⟨-, rfl, -⟩ := operand_list_ok.mp h
      simp [List.flatMap_map]
  | null =>
      cases h
      rfl
  | subquery q =>
      obtain ⟨body, -, rfl⟩ := operand_subquery_ok.mp h
      rfl

theorem mentions_comparison {f : Field} {op : Operator} {x : Operand}
    (h : (comparison v s f op (operand v x)).runFrom supply = (.ok pieces, after)) :
    mentions pieces = f.columns.map s.resolve := by
  obtain ⟨word, -, left, hleft, right, hright, rfl⟩ := comparison_ok.mp h
  simp [mentions_field f hleft, mentions_operand hright]

mutual

theorem mentions_condition : (c : Condition) → {supply after : AliasSupply} →
    {pieces : List Piece} → (condition v s c).runFrom supply = (.ok pieces, after) →
    mentions pieces = c.columns.map s.resolve
  | .compare f op x, supply, after, pieces, h => by
      rw [condition] at h
      rw [Condition.columns, mentions_comparison h]
  | .spec spec x, supply, after, pieces, h => by
      obtain ⟨f, op, hparse, h⟩ := condition_spec_ok.mp h
      rw [Condition.columns, hparse, mentions_comparison h]
  | .group op conditions, supply, after, pieces, h => by
      obtain ⟨-, parts, hparts, rfl⟩ := condition_group_ok.mp h
      rw [Piece.mentions_separated, mentions_children conditions hparts, Condition.columns]
termination_by structural x => x

theorem mentions_children : (conditions : List Condition) → {supply after : AliasSupply} →
    {parts : List (List Piece)} → (children v s conditions).runFrom supply = (.ok parts, after) →
    parts.flatMap mentions = (Condition.allColumns conditions).map s.resolve
  | [], supply, after, parts, h => by
      cases h
      rfl
  | c :: rest, supply, after, parts, h => by
      obtain ⟨part, between, hpart, others, hothers, rfl⟩ := children_cons_ok.mp h
      have hbrackets : mentions (if c.isGroup then Piece.bracketed part else part) =
          mentions part := by
        split <;> simp
      rw [List.flatMap_cons, hbrackets, mentions_condition c hpart, mentions_children rest hothers,
        Condition.allColumns, List.map_append]
termination_by structural x => x

end

theorem mentions_conditionClause {word : String} {c : Option Condition}
    (h : (conditionClause v s word c).runFrom supply = (.ok pieces, after)) :
    mentions pieces = (Condition.optionColumns c).map s.resolve := by
  cases c with
  | none =>
      cases h
      rfl
  | some c =>
      obtain ⟨part, hpart, rfl⟩ := conditionClause_some_ok.mp h
      rw [Piece.mentions_word_cons, mentions_condition c hpart, Condition.optionColumns]

/-- A statement mentions what its verb does, and behind that the columns of its clauses, every one
as the scope of the statement resolves it. -/
theorem mentions_query {q : Query} (h : (query v q).runFrom supply = (.ok pieces, after)) :
    ∃ s entered action,
      Scope.enter? q.table q.join supply = some (s, entered) ∧
      q.action = some action ∧
      mentions pieces = actionMentions s q.upsert action ++ q.clauseColumns.map s.resolve := by
  obtain ⟨s, entered, verb, filterPart, filtered, groupPart, havingPart, orderPart, hs, hverb,
    hfilter, hgroup, hhaving, horder, rfl⟩ := query_ok.mp h
  obtain ⟨action, haction, -, hclause⟩ := verbClause_ok.mp hverb
  refine ⟨s, entered, action, hs, haction, ?_⟩
  simp only [Piece.mentions_append, mentions_actionClause hclause, mentions_conditionClause hfilter,
    mentions_groupByClause hgroup, mentions_conditionClause hhaving, mentions_orderByClause horder,
    offsetClause, limitClause, mentions_countClause, Query.clauseColumns, List.map_append,
    List.append_assoc, List.append_nil]

end Compile

end BoundSql

import BoundSql.Dialect.Shipped
import BoundSql.Proofs.Lowering.Compile
import BoundSql.Proofs.Writing

/-! # What a query binds

Every marker of a statement stands for one value. The values can be read off the query without
compiling it, and they are the arguments of the statement in the order of the markers. -/

namespace BoundSql

/-! ## The values of a query -/

/-- What stands behind a marker: a value of the query, or a number of rows. -/
inductive Binding where
  | value (value : Value)
  | count (n : Int64)

/-- The argument of a binding. -/
def Binding.arg : Binding → Value
  | value v => v
  | count n => .int n

theorem Binding.map_arg_value (values : List Value) :
    (values.map Binding.value).map Binding.arg = values := by
  simp [Function.comp_def, Binding.arg]

/-- The cells of inserted rows, row by row, in the order of the columns of the first row. -/
def insertedCells : List Row → List Value
  | [] => []
  | first :: rest => (first :: rest).flatMap fun row => row.cells first.columns

/-- The values that an upsert assigns. Proposed values are bound already. -/
def Upsert.values : Option Upsert → List Value
  | some (assign assignments) => assignments.values
  | _ => []

/-- The values of a verb: those of assigned columns, or those of inserted rows. -/
def Action.values : Option Action → Option Upsert → List Value
  | some (update assignments), _ => assignments.values
  | some (insert rows _), upsert => insertedCells rows ++ Upsert.values upsert
  | _, _ => []

mutual

/-- The bindings of the right side of a comparison. -/
def Operand.bindings : Operand → List Binding
  | .literal value => [.value value]
  | .list values => values.map .value
  | .null => []
  | .subquery q => Query.bindings q
termination_by structural x => x

/-- The bindings of a condition, from left to right. -/
def Condition.bindings : Condition → List Binding
  | .compare _ _ x => Operand.bindings x
  | .spec _ x => Operand.bindings x
  | .group _ conditions => Condition.allBindings conditions
termination_by structural x => x

def Condition.allBindings : List Condition → List Binding
  | [] => []
  | c :: rest => Condition.bindings c ++ Condition.allBindings rest
termination_by structural x => x

def Condition.optionBindings : Option Condition → List Binding
  | none => []
  | some c => Condition.bindings c
termination_by structural x => x

/-- The bindings of a query: those of its verb, of WHERE and of HAVING, then the offset and the
limit. Fields, groupings, orderings and joins bind nothing. -/
def Query.bindings : Query → List Binding
  | ⟨action, _, _, filter, having, _, _, limit, offset, upsert⟩ =>
    (Action.values action upsert).map .value ++ Condition.optionBindings filter ++
      Condition.optionBindings having ++ (offset.map Binding.count).toList ++
      (limit.map Binding.count).toList
termination_by structural x => x

end

/-! ## Parts that bind nothing -/

namespace Statement

open Piece (args args_cons args_word_cons args_bracketed args_separated)

variable {d : Dialect} {v : Vocabulary} {s : Scope} {pieces : List Piece}

theorem args_resolve (name : String) : args d [s.resolve name] = [] := by
  unfold Scope.resolve
  split
  · split <;> rfl
  · rfl

mutual

/-- A field binds nothing, however deep its functions are nested. -/
theorem args_field : (f : Field) → {pieces : List Piece} → field v s f = .ok pieces →
    args d pieces = []
  | .named name, pieces, h => by
      cases h
      exact args_resolve name
  | .function name fs, pieces, h => by
      obtain ⟨word, -, parts, hparts, rfl⟩ := field_function_ok.mp h
      have hnil := args_fields fs hparts
      rw [args_cons, args_bracketed, args_separated, List.flatMap_eq_nil_iff.mpr hnil]
      rfl
  | .raw text, pieces, h => by
      cases h
      rfl
termination_by structural x => x

theorem args_fields : (fs : List Field) → {parts : List (List Piece)} →
    fields v s fs = .ok parts → ∀ part ∈ parts, args d part = []
  | [], parts, h => by
      cases h
      simp
  | f :: rest, parts, h => by
      obtain ⟨part, hpart, others, hothers, rfl⟩ := fields_cons_ok.mp h
      exact List.forall_mem_cons.mpr ⟨args_field f hpart, args_fields rest hothers⟩
termination_by structural x => x

end

/-- Fields one after the other bind nothing. -/
theorem args_separated_fields {fs : List Field} {parts : List (List Piece)} {word : String}
    (h : fields v s fs = .ok parts) : args d (Piece.separated word parts) = [] := by
  rw [args_separated]
  exact List.flatMap_eq_nil_iff.mpr (args_fields fs h)

theorem args_groupByClause {groupBy : List Field} (h : groupByClause v s groupBy = .ok pieces) :
    args d pieces = [] := by
  obtain ⟨parts, hparts, rfl⟩ := groupByClause_ok.mp h
  split
  · rfl
  · rw [args_word_cons, args_separated_fields hparts]

theorem args_orderings {entries : List OrderBy} {parts : List (List Piece)}
    (h : orderings v s entries = .ok parts) : ∀ part ∈ parts, args d part = [] := by
  induction entries generalizing parts with
  | nil =>
      cases h
      simp
  | cons entry rest ih =>
      obtain ⟨part, hpart, others, hothers, rfl⟩ := orderings_cons_ok.mp h
      obtain ⟨written, hfield, rfl⟩ := ordering_ok.mp hpart
      refine List.forall_mem_cons.mpr ⟨?_, ih hothers⟩
      rw [Piece.args_append, args_field entry.field hfield]
      cases entry.direction <;> rfl

theorem args_orderByClause {orderBy : List OrderBy} (h : orderByClause v s orderBy = .ok pieces) :
    args d pieces = [] := by
  obtain ⟨parts, hparts, rfl⟩ := orderByClause_ok.mp h
  split
  · rfl
  · rw [args_word_cons, args_separated, List.flatMap_eq_nil_iff.mpr (args_orderings hparts)]

theorem args_joinClause (h : joinClause v s = .ok pieces) : args d pieces = [] := by
  cases hjoin : s.join with
  | none =>
      rw [joinClause_none hjoin] at h
      cases h
      rfl
  | some joined =>
      obtain ⟨join, a⟩ := joined
      obtain ⟨word, -, rfl⟩ := (joinClause_some_ok hjoin).mp h
      rfl

/-! ## The values of a verb -/

/-- Assignments bind their values in order. -/
theorem args_assignments (column : String → Piece) (entries : List (String × Value))
    (hcolumn : ∀ name rest, args d (column name :: rest) = args d rest) (word : String) :
    args d (Piece.separated word
      (entries.map fun (name, value) => assignment (column name) value)) =
        entries.map Prod.snd := by
  have hentry (entry : String × Value) :
      args d (assignment (column entry.1) entry.2) = [entry.2] := by
    rw [assignment, hcolumn, args_word_cons]
    rfl
  rw [args_separated, List.flatMap_map]
  simp only [hentry]
  exact List.map_eq_flatMap.symm

theorem args_upsertClause (upsert : Option Upsert) (columns : List String) :
    args d (upsertClause v upsert columns) = Upsert.values upsert := by
  cases upsert with
  | none => rfl
  | some upsert =>
      cases upsert with
      | proposed =>
          rw [upsertClause, args_word_cons, args_separated]
          have hproposed (column : String) :
              args d [.name column, .word "=", .proposed column] = [] := by
            simp [args_cons, Piece.items, Item.value?, List.filterMap_map]
          simp [hproposed, Upsert.values]
      | assign assignments =>
          rw [upsertClause, args_word_cons]
          exact args_assignments Piece.name _ (fun _ _ => rfl) _

theorem args_tuple (columns : List String) (row : Row) :
    args d (tuple columns row) = row.cells columns := by
  rw [tuple, args_bracketed, args_separated, List.flatMap_map]
  simp

/-- A verb binds its values and nothing else. -/
theorem args_verbClause {action : Option Action} {upsert : Option Upsert}
    (h : verbClause v s action upsert = .ok pieces) :
    args d pieces = Action.values action upsert := by
  obtain ⟨a, rfl, -, h⟩ := verbClause_ok.mp h
  cases a with
  | select selected =>
      obtain ⟨-, parts, hparts, join, hjoin, rfl⟩ := selectClause_ok.mp h
      rw [args_word_cons, Piece.args_append, args_separated_fields hparts, args_word_cons,
        args_cons, args_joinClause hjoin]
      rfl
  | update assignments =>
      obtain ⟨-, join, hjoin, rfl⟩ := updateClause_ok.mp h
      rw [args_word_cons, args_cons, Piece.args_append, args_joinClause hjoin, args_word_cons,
        args_assignments s.mainColumn _ (fun _ _ => rfl)]
      rfl
  | insert rows mode =>
      cases rows with
      | nil => cases h
      | cons first rest =>
          obtain ⟨-, -, word, -, -, rfl⟩ := insertClause_ok.mp h
          have htable : args d [.table s.table] = [] := rfl
          have hnames (column : String) : args d [.name column] = [] := rfl
          rw [args_word_cons, ← List.singleton_append, Piece.args_append, htable,
            Piece.args_append, args_bracketed, args_separated, args_word_cons, Piece.args_append,
            args_separated, args_upsertClause, List.flatMap_map, List.flatMap_map]
          simp [hnames, args_tuple, Action.values, insertedCells]
  | delete =>
      obtain ⟨join, hjoin, rfl⟩ := deleteClause_ok.mp h
      rw [args_word_cons, Piece.args_append, args_word_cons, args_cons, args_joinClause hjoin]
      split <;> rfl

theorem args_countClause (word : String) (n : Option Int64) :
    args d (countClause word n) = (n.map Binding.count).toList.map Binding.arg := by
  cases n <;> rfl

end Statement

/-! ## The arguments of a lowered query -/

namespace Compile

open Statement
open Piece (args args_word_cons args_bracketed args_append)

variable {d : Dialect} {v : Vocabulary}

/-- A comparison binds what its right side binds. -/
theorem args_comparison {s : Scope} {f : Field} {op : Operator} {x : Compile (List Piece)}
    {supply after : AliasSupply} {pieces : List Piece} {values : List Value}
    (hx : ∀ {right}, x.runFrom supply = (.ok right, after) → args d right = values)
    (h : (comparison v s f op x).runFrom supply = (.ok pieces, after)) :
    args d pieces = values := by
  obtain ⟨word, -, left, hleft, right, hright, rfl⟩ := comparison_ok.mp h
  rw [args_bracketed, args_append, args_field f hleft, args_word_cons, hx hright, List.nil_append]

mutual

theorem args_operand : (x : Operand) → {supply after : AliasSupply} → {pieces : List Piece} →
    (operand v x).runFrom supply = (.ok pieces, after) →
      args d pieces = x.bindings.map Binding.arg
  | .literal value, supply, after, pieces, h => by
      cases h
      rfl
  | .list values, supply, after, pieces, h => by
      obtain ⟨-, rfl, -⟩ := operand_list_ok.mp h
      rw [args_bracketed, Piece.args_separated, List.flatMap_map, Operand.bindings, List.map_map]
      exact List.map_eq_flatMap.symm
  | .null, supply, after, pieces, h => by
      cases h
      rfl
  | .subquery q, supply, after, pieces, h => by
      obtain ⟨body, hbody, rfl⟩ := operand_subquery_ok.mp h
      rw [Piece.args_nested_cons, args_query q hbody, Operand.bindings]
      exact List.append_nil _
termination_by structural x => x

theorem args_condition : (c : Condition) → {s : Scope} → {supply after : AliasSupply} →
    {pieces : List Piece} → (condition v s c).runFrom supply = (.ok pieces, after) →
      args d pieces = c.bindings.map Binding.arg
  | .compare f op x, s, supply, after, pieces, h => by
      rw [condition] at h
      exact args_comparison (args_operand x) h
  | .spec spec x, s, supply, after, pieces, h => by
      obtain ⟨f, op, -, h⟩ := condition_spec_ok.mp h
      exact args_comparison (args_operand x) h
  | .group op conditions, s, supply, after, pieces, h => by
      obtain ⟨-, parts, hparts, rfl⟩ := condition_group_ok.mp h
      rw [Piece.args_separated, args_children conditions hparts, Condition.bindings]
termination_by structural x => x

/-- The brackets around a group among the parts bind nothing. -/
theorem args_children : (conditions : List Condition) → {s : Scope} →
    {supply after : AliasSupply} → {parts : List (List Piece)} →
    (children v s conditions).runFrom supply = (.ok parts, after) →
      parts.flatMap (args d) = (Condition.allBindings conditions).map Binding.arg
  | [], s, supply, after, parts, h => by
      cases h
      rfl
  | c :: rest, s, supply, after, parts, h => by
      obtain ⟨part, between, hpart, others, hothers, rfl⟩ := children_cons_ok.mp h
      have hbrackets : args d (if c.isGroup then Piece.bracketed part else part) = args d part := by
        split
        · exact args_bracketed d part
        · rfl
      rw [List.flatMap_cons, hbrackets, args_condition c hpart, args_children rest hothers,
        Condition.allBindings, List.map_append]
termination_by structural x => x

theorem args_conditionClause (word : String) : (c : Option Condition) → {s : Scope} →
    {supply after : AliasSupply} → {pieces : List Piece} →
    (conditionClause v s word c).runFrom supply = (.ok pieces, after) →
      args d pieces = (Condition.optionBindings c).map Binding.arg
  | none, s, supply, after, pieces, h => by
      cases h
      rfl
  | some c, s, supply, after, pieces, h => by
      obtain ⟨part, hpart, rfl⟩ := conditionClause_some_ok.mp h
      rw [args_word_cons, args_condition c hpart, Condition.optionBindings]
termination_by structural x => x

/-- What the pieces of a query bind is what can be read off the query. -/
theorem args_query : (q : Query) → {supply after : AliasSupply} → {pieces : List Piece} →
    (query v q).runFrom supply = (.ok pieces, after) →
      args d pieces = q.bindings.map Binding.arg
  | ⟨action, table, join, filter, having, orderBy, groupBy, limit, offset, upsert⟩, supply, after,
    pieces, h => by
      obtain ⟨s, entered, verb, filterPart, filtered, groupPart, havingPart, orderPart, -, hverb,
        hfilter, hgroup, hhaving, horder, rfl⟩ := query_ok.mp h
      dsimp only at hverb hfilter hgroup hhaving horder ⊢
      have hwhere := args_conditionClause "WHERE" filter hfilter
      have hhaving := args_conditionClause "HAVING" having hhaving
      simp only [args_append, args_verbClause hverb, hwhere, args_groupByClause hgroup, hhaving,
        args_orderByClause horder, offsetClause, limitClause, args_countClause, Query.bindings,
        List.map_append, List.append_nil, Binding.map_arg_value]
termination_by structural x => x

end

end Compile

/-! ## Binding correctness -/

theorem Query.compile_ok {d : Dialect} {q : Query} {supply after : AliasSupply} {c : Clause} :
    q.compile d supply = (.ok c, after) ↔
      ∃ pieces, (Compile.query d.toVocabulary q).runFrom supply = (.ok pieces, after) ∧
        c = Clause.ofPieces d pieces := by
  rw [compile, lower]
  rcases (Compile.query d.toVocabulary q).runFrom supply with ⟨e | pieces, ended⟩
  · simp [Except.map]
  · constructor
    · intro h
      obtain ⟨rfl, rfl⟩ : Clause.ofPieces d pieces = c ∧ ended = after := by
        simpa [Except.map] using h
      exact ⟨pieces, rfl, rfl⟩
    · rintro ⟨_, h, rfl⟩
      obtain ⟨rfl, rfl⟩ : pieces = _ ∧ ended = after := by simpa using h
      rfl

namespace Piece

mutual

/-- The items of a piece do not depend on the marker for bound values. -/
theorem items_placeholder (d : Dialect) (placeholder : String) : (piece : Piece) →
    items { d with placeholder := placeholder } piece = items d piece
  | word _ | call _ | slot _ | table _ | source _ _ | target _ | column _ _ | name _
  | proposed _ => by simp only [items]
  | nested body => by simp only [items, allItems_placeholder d placeholder body]
termination_by structural x => x

theorem allItems_placeholder (d : Dialect) (placeholder : String) : (pieces : List Piece) →
    allItems { d with placeholder := placeholder } pieces = allItems d pieces
  | [] => rfl
  | piece :: rest => by
      simp only [allItems, items_placeholder d placeholder piece,
        allItems_placeholder d placeholder rest]
termination_by structural x => x

end

end Piece

/-- A query that compiles has one sequence of fixed tokens and slots, whatever the marker for bound
values is. Its tokens are that sequence with the marker at every slot, its arguments are the values
of the slots, and these are the values that can be read off the query. Written item by item, the
sequence gives the clause. -/
theorem Query.compile_binds {d : Dialect} {q : Query} {supply after : AliasSupply} {c : Clause}
    (h : q.compile d supply = (.ok c, after)) :
    ∃ items : List Item,
      (∀ placeholder, q.compile { d with placeholder := placeholder } supply =
        (.ok (Clause.ofItems placeholder items), after)) ∧
      c.tokens = items.map (Item.toToken d.placeholder) ∧
      c.args = items.filterMap Item.value? ∧
      items.filterMap Item.value? = q.bindings.map Binding.arg ∧
      (Clause.Writer.items d.placeholder items).writeOn .empty = (.ok (), c) := by
  obtain ⟨pieces, hpieces, rfl⟩ := compile_ok.mp h
  have hwritten := Clause.Writer.adds_items d.placeholder (Piece.allItems d pieces) .empty
  rw [Clause.empty_append] at hwritten
  refine ⟨Piece.allItems d pieces, ?_, rfl, rfl, Compile.args_query q hpieces, hwritten⟩
  intro placeholder
  refine compile_ok.mpr ⟨pieces, hpieces, ?_⟩
  rw [Clause.ofPieces, Piece.allItems_placeholder d placeholder pieces]

/-- Marks the adult users with large orders, the first few of these left out. -/
def Query.markBuyers : Query where
  table := some ⟨"users", none⟩
  action := some (.update ⟨[("state", .string "buyer"), ("seen", .null)]⟩)
  filter := some (.group .and [.spec "age__gte" (.literal (.int 18)),
    .compare (.named "id") .isIn (.subquery
      { table := some ⟨"orders", none⟩
        action := some (.select [.named "user_id"])
        filter := some (.spec "total__gt" (.literal (.int 100)))
        limit := some 3 })])
  offset := some 7

theorem Query.compile_binds_markBuyers :
    ∃ c, markBuyers.compile ShippedDialect.ansi.dialect ⟨25⟩ = (.ok c, ⟨27⟩) ∧
      ∃ items : List Item, c.tokens = items.map (Item.toToken "%s") ∧
        c.args = items.filterMap Item.value? ∧
        items.filterMap Item.value? =
          [.string "buyer", .null, .int 18, .int 100, .int 3, .int 7] ∧
        (Clause.Writer.items "%s" items).writeOn .empty = (.ok (), c) := by
  obtain ⟨c, hcompile⟩ :
      ∃ c, markBuyers.compile ShippedDialect.ansi.dialect ⟨25⟩ = (.ok c, ⟨27⟩) := ⟨_, rfl⟩
  obtain ⟨items, -, htokens, hargs, hvalues, hwritten⟩ := Query.compile_binds hcompile
  exact ⟨c, hcompile, items, htokens, hargs, hvalues, hwritten⟩

end BoundSql

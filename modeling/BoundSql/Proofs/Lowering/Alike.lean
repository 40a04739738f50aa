import BoundSql.Proofs.Lowering.Agreement
import BoundSql.Proofs.Lowering.Written
import Mathlib.Data.List.Forall2

/-! # Alike queries and alike pieces

Two compiles may differ in the words of their vocabularies, in their aliases and in the values of
their queries. What they have in common is said here once, whatever these differences are: given
how words, aliases and values of the one go with those of the other, queries, scopes and pieces of
the two are alike if they are the same but for them. -/

namespace BoundSql

/-- How two compiles may differ: which words, aliases, values and positions of the supply of the
one go with which of the other. A word always goes with itself, and aliases that are drawn
together go together. -/
structure Likeness where
  words : String → String → Prop
  aliases : Alias → Alias → Prop
  values : Value → Value → Prop
  supplies : AliasSupply → AliasSupply → Prop
  words_refl (text : String) : words text text
  aliases_next {n m : AliasSupply} (h : supplies n m) : aliases n.next.1 m.next.1
  supplies_next {n m : AliasSupply} (h : supplies n m) : supplies n.next.2 m.next.2

/-- Everything goes with itself alone. -/
def Likeness.same : Likeness where
  words := Eq
  aliases := Eq
  values := Eq
  supplies := Eq
  words_refl _ := rfl
  aliases_next h := congrArg (fun supply => supply.next.1) h
  supplies_next h := congrArg (fun supply => supply.next.2) h

/-! ## Queries -/

/-- The rows have the same columns in the same order, and the values go together. -/
def Row.Alike (value : Value → Value → Prop) (row other : Row) : Prop :=
  List.Forall₂ (fun entry entry' => entry'.1 = entry.1 ∧ value entry.2 entry'.2) row.entries
    other.entries

/-- The actions are the same but for the values of their rows. -/
inductive Action.Alike (value : Value → Value → Prop) : Action → Action → Prop where
  | select (fields : List Field) : Alike value (.select fields) (.select fields)
  | update {row other : Row} (h : Row.Alike value row other) :
    Alike value (.update row) (.update other)
  | insert {rows others : List Row} (h : List.Forall₂ (Row.Alike value) rows others)
    (mode : InsertMode) : Alike value (.insert rows mode) (.insert others mode)
  | delete : Alike value .delete .delete

/-- The upserts are the same but for the values they assign. -/
inductive Upsert.Alike (value : Value → Value → Prop) : Upsert → Upsert → Prop where
  | proposed : Alike value .proposed .proposed
  | assign {row other : Row} (h : Row.Alike value row other) :
    Alike value (.assign row) (.assign other)

/-- A number of rows goes with another as the values they are bound as do. -/
def CountsAlike (value : Value → Value → Prop) : Option Int64 → Option Int64 → Prop :=
  Option.Rel fun n m => value (.int n) (.int m)

mutual

/-- The operands are the same but for their values. -/
inductive Operand.Alike (value : Value → Value → Prop) : Operand → Operand → Prop where
  | literal {x y : Value} (h : value x y) : Operand.Alike value (.literal x) (.literal y)
  | list {xs ys : List Value} (h : List.Forall₂ value xs ys) :
    Operand.Alike value (.list xs) (.list ys)
  | null : Operand.Alike value .null .null
  | subquery {q q' : Query} (h : Query.Alike value q q') :
    Operand.Alike value (.subquery q) (.subquery q')

/-- The conditions are the same but for the values they compare with. -/
inductive Condition.Alike (value : Value → Value → Prop) : Condition → Condition → Prop where
  | compare (field : Field) (op : Operator) {x y : Operand} (h : Operand.Alike value x y) :
    Condition.Alike value (.compare field op x) (.compare field op y)
  | spec (spec : String) {x y : Operand} (h : Operand.Alike value x y) :
    Condition.Alike value (.spec spec x) (.spec spec y)
  | group (op : LogicalOp) {conditions others : List Condition}
    (h : Condition.AllAlike value conditions others) :
    Condition.Alike value (.group op conditions) (.group op others)

inductive Condition.AllAlike (value : Value → Value → Prop) :
    List Condition → List Condition → Prop where
  | nil : Condition.AllAlike value [] []
  | cons {c c' : Condition} {rest rest' : List Condition} (h : Condition.Alike value c c')
    (hrest : Condition.AllAlike value rest rest') :
    Condition.AllAlike value (c :: rest) (c' :: rest')

inductive Condition.OptionAlike (value : Value → Value → Prop) :
    Option Condition → Option Condition → Prop where
  | none : Condition.OptionAlike value none none
  | some {c c' : Condition} (h : Condition.Alike value c c') :
    Condition.OptionAlike value (some c) (some c')

/-- The queries are the same but for the values they bind. -/
inductive Query.Alike (value : Value → Value → Prop) : Query → Query → Prop where
  | mk (table : Option Table) (join : Option Join) (orderBy : List OrderBy) (groupBy : List Field)
    {action action' : Option Action} {filter filter' having having' : Option Condition}
    {limit limit' offset offset' : Option Int64} {upsert upsert' : Option Upsert}
    (haction : Option.Rel (Action.Alike value) action action')
    (hfilter : Condition.OptionAlike value filter filter')
    (hhaving : Condition.OptionAlike value having having')
    (hlimit : CountsAlike value limit limit') (hoffset : CountsAlike value offset offset')
    (hupsert : Option.Rel (Upsert.Alike value) upsert upsert') :
    Query.Alike value
      ⟨action, table, join, filter, having, orderBy, groupBy, limit, offset, upsert⟩
      ⟨action', table, join, filter', having', orderBy, groupBy, limit', offset', upsert'⟩

end

/-! ### Rows -/

namespace Row.Alike

variable {value : Value → Value → Prop} {row row' other other' : Row}

theorem columns_eq (h : Alike value row row') : row'.columns = row.columns := by
  obtain ⟨entries⟩ := row
  obtain ⟨entries'⟩ := row'
  rw [Alike] at h
  dsimp only at h
  induction h with
  | nil => rfl
  | cons hentry hrest ih => exact congrArg₂ List.cons hentry.1 ih

theorem isEmpty_eq (h : Alike value row row') : row'.isEmpty = row.isEmpty := by
  obtain ⟨entries⟩ := row
  obtain ⟨entries'⟩ := row'
  cases h <;> rfl

theorem get? (h : Alike value row row') (column : String) :
    Option.Rel value (row.get? column) (row'.get? column) := by
  obtain ⟨entries⟩ := row
  obtain ⟨entries'⟩ := row'
  rw [Alike] at h
  dsimp only at h
  induction h with
  | nil => exact .none
  | @cons entry entry' rest rest' hentry hrest ih =>
      rw [Row.get?, Row.get?, List.find?_cons, List.find?_cons, hentry.1]
      cases entry.1 == column with
      | true => exact .some hentry.2
      | false => exact ih

theorem contains_eq (h : Alike value row row') (column : String) :
    row'.contains column = row.contains column := by
  have hget := h.get? column
  rw [Row.contains, Row.contains]
  generalize row.get? column = found at hget
  generalize row'.get? column = found' at hget
  cases hget <;> rfl

theorem sameColumns_eq (h : Alike value row row') (hother : Alike value other other') :
    row'.sameColumns other' = row.sameColumns other := by
  have hsize : row'.size = row.size := h.length_eq.symm
  have hothers : other'.size = other.size := hother.length_eq.symm
  have hcontains : other'.contains = other.contains := funext hother.contains_eq
  rw [sameColumns, sameColumns, hsize, hothers, h.columns_eq, hcontains]

end Row.Alike

/-! ### Queries that are alike themselves -/

section

variable {value : Value → Value → Prop}

theorem option_rel_refl {α : Type} {same : α → α → Prop} (h : ∀ a, same a a) (a : Option α) :
    Option.Rel same a a := by
  cases a with
  | none => exact .none
  | some a => exact .some (h a)

theorem Row.Alike.refl (h : ∀ x, value x x) (row : Row) : row.Alike value row :=
  List.forall₂_same.mpr fun entry _ => ⟨rfl, h entry.2⟩

theorem Action.Alike.refl (h : ∀ x, value x x) (action : Action) : action.Alike value action := by
  cases action with
  | select fields => exact .select fields
  | update row => exact .update (.refl h row)
  | insert rows mode => exact .insert (List.forall₂_same.mpr fun row _ => .refl h row) mode
  | delete => exact .delete

theorem Upsert.Alike.refl (h : ∀ x, value x x) (upsert : Upsert) : upsert.Alike value upsert := by
  cases upsert with
  | proposed => exact .proposed
  | assign row => exact .assign (.refl h row)

mutual

theorem Operand.Alike.refl (h : ∀ x, value x x) : (x : Operand) → x.Alike value x
  | .literal x => .literal (h x)
  | .list _ => .list (List.forall₂_same.mpr fun x _ => h x)
  | .null => .null
  | .subquery q => .subquery (Query.Alike.refl h q)
termination_by structural x => x

theorem Condition.Alike.refl (h : ∀ x, value x x) : (c : Condition) → c.Alike value c
  | .compare field op x => .compare field op (Operand.Alike.refl h x)
  | .spec spec x => .spec spec (Operand.Alike.refl h x)
  | .group op conditions => .group op (Condition.AllAlike.refl h conditions)
termination_by structural c => c

theorem Condition.AllAlike.refl (h : ∀ x, value x x) :
    (conditions : List Condition) → Condition.AllAlike value conditions conditions
  | [] => .nil
  | c :: rest => .cons (Condition.Alike.refl h c) (Condition.AllAlike.refl h rest)
termination_by structural conditions => conditions

theorem Condition.OptionAlike.refl (h : ∀ x, value x x) :
    (c : Option Condition) → Condition.OptionAlike value c c
  | none => .none
  | some c => .some (Condition.Alike.refl h c)
termination_by structural c => c

theorem Query.Alike.refl (h : ∀ x, value x x) : (q : Query) → q.Alike value q
  | ⟨action, table, join, filter, having, orderBy, groupBy, limit, offset, upsert⟩ =>
    .mk table join orderBy groupBy (option_rel_refl (Action.Alike.refl h) action)
      (Condition.OptionAlike.refl h filter) (Condition.OptionAlike.refl h having)
      (option_rel_refl (fun n => h (.int n)) limit) (option_rel_refl (fun n => h (.int n)) offset)
      (option_rel_refl (Upsert.Alike.refl h) upsert)
termination_by structural q => q

end

end

/-! ## Pieces -/

namespace Piece

/-- The pieces are the same but for words, aliases and values that go together. -/
inductive Alike (l : Likeness) : List Piece → List Piece → Prop where
  | nil : Alike l [] []
  | word {text text' : String} (h : l.words text text') : Alike l [.word text] [.word text']
  | call {name name' : String} (h : l.words name name') : Alike l [.call name] [.call name']
  | slot {x y : Value} (h : l.values x y) : Alike l [.slot x] [.slot y]
  | table (t : Table) : Alike l [.table t] [.table t]
  | source (t : Table) {a b : Alias} (h : l.aliases a b) : Alike l [.source t a] [.source t b]
  | target {a b : Alias} (h : l.aliases a b) : Alike l [.target a] [.target b]
  | column {a b : Alias} (h : l.aliases a b) (own : String) :
    Alike l [.column a own] [.column b own]
  | name (own : String) : Alike l [.name own] [.name own]
  | proposed (own : String) : Alike l [.proposed own] [.proposed own]
  | nested {body body' : List Piece} (h : Alike l body body') :
    Alike l [.nested body] [.nested body']
  | append {left left' right right' : List Piece} (hleft : Alike l left left')
    (hright : Alike l right right') : Alike l (left ++ right) (left' ++ right')

namespace Alike

variable {l : Likeness} {piece piece' : Piece} {pieces pieces' : List Piece}

theorem cons (h : Alike l [piece] [piece']) (hrest : Alike l pieces pieces') :
    Alike l (piece :: pieces) (piece' :: pieces') :=
  .append h hrest

theorem keyword (text : String) (h : Alike l pieces pieces') :
    Alike l (.word text :: pieces) (.word text :: pieces') :=
  .cons (.word (l.words_refl text)) h

theorem bracketed (h : Alike l pieces pieces') : Alike l (bracketed pieces) (bracketed pieces') :=
  .keyword "(" (.append h (.keyword ")" .nil))

theorem separated {text text' : String} (hword : l.words text text')
    {parts parts' : List (List Piece)} (h : List.Forall₂ (Alike l) parts parts') :
    Alike l (separated text parts) (separated text' parts') := by
  induction h with
  | nil => exact .nil
  | cons hpart hrest ih =>
      cases hrest with
      | nil => simpa using hpart
      | cons _ _ =>
          rw [separated_cons_cons, separated_cons_cons]
          exact .append hpart (.cons (.word hword) ih)

/-- Parts with commas between them. -/
theorem listed {parts parts' : List (List Piece)} (h : List.Forall₂ (Alike l) parts parts') :
    Alike l (Piece.separated ", " parts) (Piece.separated ", " parts') :=
  separated (l.words_refl ", ") h

end Alike

end Piece

/-! ## Scopes -/

/-- The scopes have the same tables, with aliases that go together. -/
structure Scope.Alike (l : Likeness) (s t : Scope) : Prop where
  table_eq : t.table = s.table
  mainAlias : l.aliases s.mainAlias t.mainAlias
  join : Option.Rel (fun x y => y.1 = x.1 ∧ l.aliases x.2 y.2) s.join t.join

namespace Scope.Alike

variable {l : Likeness} {s t : Scope}

theorem refl (h : ∀ a, l.aliases a a) (s : Scope) : s.Alike l s where
  table_eq := rfl
  mainAlias := h s.mainAlias
  join := option_rel_refl (fun joined => ⟨rfl, h joined.2⟩) s.join

theorem tableColumn (table : Table) {a b : Alias} (h : l.aliases a b) (name : String) :
    Piece.Alike l [Scope.tableColumn table a name] [Scope.tableColumn table b name] :=
  .column h _

theorem mainColumn (h : s.Alike l t) (name : String) :
    Piece.Alike l [s.mainColumn name] [t.mainColumn name] := by
  rw [Scope.mainColumn, Scope.mainColumn, h.table_eq]
  exact tableColumn s.table h.mainAlias name

theorem resolve (h : s.Alike l t) (name : String) :
    Piece.Alike l [s.resolve name] [t.resolve name] := by
  have hmain := h.mainColumn name
  have hjoin := h.join
  rw [Scope.resolve, Scope.resolve]
  generalize s.join = joined at hjoin
  generalize t.join = joined' at hjoin
  cases hjoin with
  | none => exact hmain
  | @some x y hxy =>
      obtain ⟨join, a⟩ := x
      obtain ⟨join', b⟩ := y
      obtain ⟨rfl, ha⟩ := hxy
      dsimp only
      cases columnOf? join'.table.name name with
      | none => exact hmain
      | some column => exact .column ha column

end Scope.Alike

/-! ## Vocabularies -/

/-- The vocabularies lack the same words, and the words they have go together. The words between
the conditions of a group are the same, since an error names them. -/
structure Vocabulary.Alike (l : Likeness) (v w : Vocabulary) : Prop where
  operator (op : Operator) :
    Agrees l.words (Statement.lookup (v.operator op)) (Statement.lookup (w.operator op))
  function (name : String) :
    Agrees l.words (Statement.lookup (v.function name)) (Statement.lookup (w.function name))
  logical (op : LogicalOp) : w.logical op = v.logical op
  joinKind (kind : JoinKind) :
    Agrees l.words (Statement.lookup (v.joinKind kind)) (Statement.lookup (w.joinKind kind))
  sortOrder (order : SortOrder) : l.words (v.sortOrder order) (w.sortOrder order)
  null : l.words v.null w.null
  insertMode (mode : InsertMode) :
    Agrees l.words (Statement.lookup (v.insertMode mode)) (Statement.lookup (w.insertMode mode))
  upsert : l.words v.upsert w.upsert

theorem Vocabulary.Alike.refl (l : Likeness) (v : Vocabulary) : v.Alike l v where
  operator _ := .refl l.words_refl _
  function _ := .refl l.words_refl _
  logical _ := rfl
  joinKind _ := .refl l.words_refl _
  sortOrder _ := l.words_refl _
  null := l.words_refl _
  insertMode _ := .refl l.words_refl _
  upsert := l.words_refl _

end BoundSql

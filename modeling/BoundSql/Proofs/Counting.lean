import BoundSql.Proofs.Building
import BoundSql.Proofs.Lowering.Shipped

/-! # What LIMIT and OFFSET count

In a statement of a shipped dialect nothing but the limit of its query stands behind LIMIT and
nothing but the offset behind OFFSET, whatever raw texts there are beside them. -/

namespace BoundSql

/-- The word of the clause. -/
def CountClause.word : CountClause → String
  | limit => "LIMIT"
  | offset => "OFFSET"

theorem CountClause.word_injective : Function.Injective word := by
  intro a b h
  cases a <;> cases b <;> first | rfl | exact absurd h (by decide)

/-- Two neighbours in a list stand in one of its parts, or where the parts meet. -/
theorem pair_isInfix_append {α : Type} {a b : α} {left right : List α}
    (h : [a, b] <:+: left ++ right) :
    [a, b] <:+: left ∨ [a, b] <:+: right ∨ right.head? = some b := by
  induction left with
  | nil => exact .inr (.inl h)
  | cons x rest ih =>
      rw [List.cons_append, List.infix_cons_iff] at h
      rcases h with hfirst | hpair
      · obtain ⟨rfl, hnext⟩ := List.cons_prefix_cons.mp hfirst
        cases rest with
        | nil =>
            obtain ⟨tail, rfl⟩ := hnext
            exact .inr (.inr rfl)
        | cons y rest =>
            obtain ⟨rfl, -⟩ := List.cons_prefix_cons.mp hnext
            exact .inl ⟨[], rest, rfl⟩
      · exact (ih hpair).imp_left fun h => h.trans (List.suffix_cons x rest).isInfix

namespace Piece

/-- The piece is the place of a value. -/
def isSlot : Piece → Bool
  | slot _ => true
  | _ => false

/-- Pieces as they are put together outside LIMIT and OFFSET: before every slot stands another word
than theirs. -/
inductive Uncounted : List Piece → Prop where
  | nil : Uncounted []
  | single {piece : Piece} (h : piece.isSlot = false) : Uncounted [piece]
  | led {word : String} (value : Value) (h : ∀ k : CountClause, word ≠ k.word) :
    Uncounted [.word word, .slot value]
  | append {left right : List Piece} (hleft : Uncounted left) (hright : Uncounted right) :
    Uncounted (left ++ right)

namespace Uncounted

variable {pieces : List Piece}

theorem cons {piece : Piece} (hpiece : piece.isSlot = false) (h : Uncounted pieces) :
    Uncounted (piece :: pieces) :=
  .append (.single hpiece) h

theorem bracketed (h : Uncounted pieces) : Uncounted (bracketed pieces) :=
  .cons rfl (h.append (.single rfl))

theorem separated {word : String} {parts : List (List Piece)}
    (h : ∀ part ∈ parts, Uncounted part) : Uncounted (separated word parts) := by
  induction parts with
  | nil => exact .nil
  | cons part rest ih =>
      obtain ⟨hpart, hrest⟩ := List.forall_mem_cons.mp h
      cases rest with
      | nil => simpa using hpart
      | cons next rest =>
          rw [separated_cons_cons]
          exact hpart.append (.cons rfl (ih hrest))

/-- Slots with a word between every two of them, after another word. -/
theorem slots {lead glue : String} (hlead : ∀ k : CountClause, lead ≠ k.word)
    (hglue : ∀ k : CountClause, glue ≠ k.word) (values : List Value) :
    Uncounted (.word lead :: Piece.separated glue (values.map fun value => [.slot value])) := by
  induction values generalizing lead with
  | nil => exact .single rfl
  | cons value rest ih =>
      cases rest with
      | nil => exact .led value hlead
      | cons next rest =>
          rw [List.map_cons, List.map_cons, separated_cons_cons]
          exact .append (.led value hlead) (ih hglue)

/-- Pieces that bind nothing and nest no statement. -/
theorem of_args_eq_nil {d : Dialect} {s : Scope} (hwithin : AllWithin s pieces)
    (hargs : args d pieces = []) : Uncounted pieces := by
  induction pieces with
  | nil => exact .nil
  | cons piece rest ih =>
      obtain ⟨hpiece, hrest⟩ := List.forall_mem_cons.mp hwithin
      rw [args_cons, List.append_eq_nil_iff] at hargs
      cases piece with
      | slot value => simp [items, Item.value?] at hargs
      | _ => exact .cons rfl (ih hrest hargs.2)

theorem isSlot_head? (h : Uncounted pieces) : ∀ piece ∈ pieces.head?, piece.isSlot = false := by
  induction h with
  | nil => simp
  | single h => simpa using h
  | led _ _ => simp [isSlot]
  | @append left right _ _ ihLeft ihRight =>
      cases left with
      | nil => exact ihRight
      | cons piece rest => exact ihLeft

theorem not_isInfix (h : Uncounted pieces) (k : CountClause) (value : Value) :
    ¬ [.word k.word, .slot value] <:+: pieces := by
  induction h with
  | nil => simp
  | single _ => exact fun hpair => by simpa using hpair.length_le
  | led other hword =>
      intro hpair
      have heq := hpair.eq_of_length rfl
      simp only [List.cons.injEq, word.injEq] at heq
      exact hword k heq.1.symm
  | append _ hright ihLeft ihRight =>
      intro hpair
      rcases pair_isInfix_append hpair with hpair | hpair | hhead
      · exact ihLeft hpair
      · exact ihRight hpair
      · exact absurd (hright.isSlot_head? _ hhead) nofun

end Uncounted

end Piece

namespace Statement

open Piece (Uncounted)

variable {v : Vocabulary} {s : Scope} {pieces : List Piece}

theorem assignments_uncounted {column : String → Piece}
    (hcolumn : ∀ name, (column name).isSlot = false) (entries : List (String × Value)) :
    Uncounted (Piece.separated ", "
      (entries.map fun (name, value) => assignment (column name) value)) := by
  refine .separated fun part hpart => ?_
  obtain ⟨⟨name, value⟩, -, rfl⟩ := List.mem_map.mp hpart
  exact .cons (hcolumn name) (.led value fun k => by cases k <;> decide)

theorem upsertClause_uncounted (upsert : Option Upsert) (columns : List String) :
    Uncounted (upsertClause v upsert columns) := by
  rcases upsert with _ | _ | assignments
  · exact .nil
  · refine .cons rfl (.separated fun part hpart => ?_)
    obtain ⟨column, -, rfl⟩ := List.mem_map.mp hpart
    exact .cons rfl (.cons rfl (.single rfl))
  · exact .cons rfl (assignments_uncounted (fun _ => rfl) _)

theorem tuple_uncounted (columns : List String) (row : Row) : Uncounted (tuple columns row) := by
  have hslots : Uncounted (.word "(" :: Piece.separated ", "
      ((row.cells columns).map fun value => [.slot value])) :=
    .slots (fun k => by cases k <;> decide) (fun k => by cases k <;> decide) _
  exact hslots.append (.single rfl)

/-- No verb counts rows. -/
theorem verbClause_uncounted {action : Option Action} {upsert : Option Upsert}
    (h : verbClause v s action upsert = .ok pieces) : Uncounted pieces := by
  have hwithin := verbClause_within h
  have hargs : Piece.args ShippedDialect.ansi.dialect pieces = Action.values action upsert :=
    args_verbClause h
  obtain ⟨a, rfl, -, h⟩ := verbClause_ok.mp h
  cases a with
  | select _ | delete => exact .of_args_eq_nil hwithin hargs
  | update assignments =>
      obtain ⟨-, join, hjoin, rfl⟩ := updateClause_ok.mp h
      have hjoin : Uncounted join := by
        refine .of_args_eq_nil (s := s) (d := ShippedDialect.ansi.dialect) ?_
          (args_joinClause hjoin)
        exact fun piece hpiece => hwithin piece (by simp [hpiece])
      exact .cons rfl (.cons rfl (hjoin.append
        (.cons rfl (assignments_uncounted (fun _ => rfl) _))))
  | insert rows mode =>
      cases rows with
      | nil => cases h
      | cons first rest =>
          obtain ⟨-, -, word, -, -, rfl⟩ := insertClause_ok.mp h
          have hnames : Uncounted (Piece.separated ", "
              (first.columns.map fun column => [.name column])) := by
            refine .separated fun part hpart => ?_
            obtain ⟨column, -, rfl⟩ := List.mem_map.mp hpart
            exact .single rfl
          have htuples : Uncounted (Piece.separated ", "
              ((first :: rest).map (tuple first.columns))) := by
            refine .separated fun part hpart => ?_
            obtain ⟨row, -, rfl⟩ := List.mem_map.mp hpart
            exact tuple_uncounted first.columns row
          exact .cons rfl (.cons rfl (hnames.bracketed.append (.cons rfl
            (htuples.append (upsertClause_uncounted upsert first.columns)))))

theorem countClause_isInfix {word other : String} {count : Option Int64} {value : Value}
    (h : [.word other, .slot value] <:+: countClause word count) :
    other = word ∧ ∃ n, count = some n ∧ value = .int n := by
  cases count with
  | none => simp [countClause] at h
  | some n =>
      have heq : [.word other, .slot value] = [Piece.word word, .slot (.int n)] :=
        h.eq_of_length rfl
      simp only [List.cons.injEq, Piece.word.injEq, Piece.slot.injEq, and_true] at heq
      exact ⟨heq.1, n, rfl, heq.2⟩

theorem countClause_head?_ne (word : String) (count : Option Int64) (value : Value) :
    (countClause word count).head? ≠ some (.slot value) := by
  cases count <;> simp [countClause]

end Statement

theorem ShippedDialect.operator_ne_word {k : ShippedDialect} {op : Operator} {word : String}
    (h : k.dialect.operator op = .ok word) (clause : CountClause) : word ≠ clause.word := by
  cases k <;> cases op <;> cases h <;> cases clause <;> decide

namespace Compile

open Statement
open Piece (Uncounted)

variable {k : ShippedDialect} {s : Scope}

/-- The right side of a comparison behind another word. -/
theorem operand_uncounted {x : Operand} {word : String} {supply after : AliasSupply}
    {pieces : List Piece} (hword : ∀ clause : CountClause, word ≠ clause.word)
    (h : (operand k.dialect.toVocabulary x).runFrom supply = (.ok pieces, after)) :
    Uncounted (.word word :: pieces) := by
  cases x with
  | literal value =>
      cases h
      exact .led value hword
  | list values =>
      obtain ⟨-, rfl, -⟩ := operand_list_ok.mp h
      have hslots : Uncounted (.word "(" :: Piece.separated ","
          (values.map fun value => [.slot value])) :=
        .slots (fun k => by cases k <;> decide) (fun k => by cases k <;> decide) _
      exact .cons rfl (hslots.append (.single rfl))
  | null =>
      cases h
      exact .cons rfl (.single rfl)
  | subquery q =>
      obtain ⟨body, -, rfl⟩ := operand_subquery_ok.mp h
      exact .cons rfl (.single rfl)

theorem comparison_uncounted {f : Field} {op : Operator} {x : Operand}
    {supply after : AliasSupply} {pieces : List Piece}
    (h : (comparison k.dialect.toVocabulary s f op
      (operand k.dialect.toVocabulary x)).runFrom supply = (.ok pieces, after)) :
    Uncounted pieces := by
  obtain ⟨word, hword, left, hleft, right, hright, rfl⟩ := comparison_ok.mp h
  have hargs : Piece.args k.dialect left = [] := args_field f hleft
  have hfield := Uncounted.of_args_eq_nil (field_within hleft) hargs
  exact (hfield.append
    (operand_uncounted (ShippedDialect.operator_ne_word hword) hright)).bracketed

mutual

theorem condition_uncounted : (c : Condition) → {supply after : AliasSupply} →
    {pieces : List Piece} →
    (condition k.dialect.toVocabulary s c).runFrom supply = (.ok pieces, after) →
    Uncounted pieces
  | .compare f op x, supply, after, pieces, h => by
      rw [condition] at h
      exact comparison_uncounted h
  | .spec spec x, supply, after, pieces, h => by
      obtain ⟨f, op, -, h⟩ := condition_spec_ok.mp h
      exact comparison_uncounted h
  | .group op conditions, supply, after, pieces, h => by
      obtain ⟨-, parts, hparts, rfl⟩ := condition_group_ok.mp h
      exact .separated (children_uncounted conditions hparts)
termination_by structural c => c

theorem children_uncounted : (conditions : List Condition) → {supply after : AliasSupply} →
    {parts : List (List Piece)} →
    (children k.dialect.toVocabulary s conditions).runFrom supply = (.ok parts, after) →
    ∀ part ∈ parts, Uncounted part
  | [], supply, after, parts, h => by
      cases h
      simp
  | c :: rest, supply, after, parts, h => by
      obtain ⟨part, between, hpart, others, hothers, rfl⟩ := children_cons_ok.mp h
      have huncounted := condition_uncounted c hpart
      have hchild : Uncounted (if c.isGroup then Piece.bracketed part else part) := by
        split
        · exact huncounted.bracketed
        · exact huncounted
      exact List.forall_mem_cons.mpr ⟨hchild, children_uncounted rest hothers⟩
termination_by structural conditions => conditions

end

theorem conditionClause_uncounted {word : String} {c : Option Condition}
    {supply after : AliasSupply} {pieces : List Piece}
    (h : (conditionClause k.dialect.toVocabulary s word c).runFrom supply =
      (.ok pieces, after)) : Uncounted pieces := by
  cases c with
  | none =>
      cases h
      exact .nil
  | some c =>
      obtain ⟨part, hpart, rfl⟩ := conditionClause_some_ok.mp h
      exact .cons rfl (condition_uncounted c hpart)

/-- What stands behind LIMIT in a statement is the limit of its query, and what stands behind OFFSET
is the offset. -/
theorem isInfix_query_iff {q : Query} {supply after : AliasSupply} {pieces : List Piece}
    (h : (query k.dialect.toVocabulary q).runFrom supply = (.ok pieces, after))
    (clause : CountClause) (value : Value) :
    [.word clause.word, .slot value] <:+: pieces ↔
      ∃ n, clause.of q = some n ∧ value = .int n := by
  obtain ⟨s, entered, verb, filterPart, filtered, groupPart, havingPart, orderPart, -, hverb,
    hfilter, hgroup, hhaving, horder, rfl⟩ := query_ok.mp h
  have hgroupArgs : Piece.args k.dialect groupPart = [] := args_groupByClause hgroup
  have horderArgs : Piece.args k.dialect orderPart = [] := args_orderByClause horder
  have hfront : Uncounted (verb ++ filterPart ++ groupPart ++ havingPart ++ orderPart) :=
    ((((verbClause_uncounted hverb).append (conditionClause_uncounted hfilter)).append
      (.of_args_eq_nil (groupByClause_within hgroup) hgroupArgs)).append
      (conditionClause_uncounted hhaving)).append
      (.of_args_eq_nil (orderByClause_within horder) horderArgs)
  generalize verb ++ filterPart ++ groupPart ++ havingPart ++ orderPart = front at hfront
  constructor
  · intro hpair
    rcases pair_isInfix_append hpair with hpair | hlimit | hhead
    · rcases pair_isInfix_append hpair with hpair | hoffset | hhead
      · exact absurd hpair (hfront.not_isInfix clause value)
      · obtain ⟨hword, n, hn, rfl⟩ := countClause_isInfix hoffset
        obtain rfl : clause = .offset := CountClause.word_injective hword
        exact ⟨n, hn, rfl⟩
      · exact absurd hhead (countClause_head?_ne _ _ _)
    · obtain ⟨hword, n, hn, rfl⟩ := countClause_isInfix hlimit
      obtain rfl : clause = .limit := CountClause.word_injective hword
      exact ⟨n, hn, rfl⟩
    · exact absurd hhead (countClause_head?_ne _ _ _)
  · rintro ⟨n, hn, rfl⟩
    cases clause with
    | limit =>
        have hn : q.limit = some n := hn
        rw [hn]
        exact (List.suffix_append _ _).isInfix
    | offset =>
        have hn : q.offset = some n := hn
        rw [hn]
        exact ⟨front, limitClause q.limit, rfl⟩

end Compile

end BoundSql

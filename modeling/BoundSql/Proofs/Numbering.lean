import BoundSql.Proofs.Binding
import BoundSql.Proofs.Lowering.Forming
import BoundSql.Proofs.Moving

/-! # The numbers of aliases

The tables that a query and the queries nested in it refer to draw their aliases one after the
other, whatever the position of the supply is at which they start. -/

namespace BoundSql

/-! ## The statements of a query -/

mutual

/-- The statements nested in the right side of a comparison. -/
def Operand.statements : Operand → List Query
  | .literal _ => []
  | .list _ => []
  | .null => []
  | .subquery q => Query.statements q
termination_by structural x => x

/-- The statements nested in a condition, from left to right. -/
def Condition.statements : Condition → List Query
  | .compare _ _ x => Operand.statements x
  | .spec _ x => Operand.statements x
  | .group _ conditions => Condition.allStatements conditions
termination_by structural x => x

def Condition.allStatements : List Condition → List Query
  | [] => []
  | c :: rest => Condition.statements c ++ Condition.allStatements rest
termination_by structural x => x

def Condition.optionStatements : Option Condition → List Query
  | none => []
  | some c => Condition.statements c
termination_by structural x => x

/-- A query and the queries nested in it: first itself, then those of WHERE and then those of
HAVING, every one followed by those nested in it. -/
def Query.statements : Query → List Query
  | ⟨action, table, join, filter, having, orderBy, groupBy, limit, offset, upsert⟩ =>
    ⟨action, table, join, filter, having, orderBy, groupBy, limit, offset, upsert⟩ ::
      (Condition.optionStatements filter ++ Condition.optionStatements having)
termination_by structural x => x

end

theorem Query.statements_eq (q : Query) :
    q.statements =
      q :: (Condition.optionStatements q.filter ++ Condition.optionStatements q.having) := by
  cases q
  rw [statements]

/-- The tables of a query itself: the main table, then the joined one. -/
def Query.tables (q : Query) : List Table :=
  q.table.toList ++ (q.join.map Join.table).toList

/-- The table references of statements, in their order. -/
def references (statements : List Query) : List Table :=
  statements.flatMap Query.tables

theorem references_append (left right : List Query) :
    references (left ++ right) = references left ++ references right :=
  List.flatMap_append

/-- The table references of a query: its main table, its joined table, those of the queries in
WHERE and those of the queries in HAVING. -/
def Query.references (q : Query) : List Table :=
  BoundSql.references q.statements

/-! ## The statements of pieces -/

namespace Piece

mutual

/-- The statements nested in a piece, every one followed by those nested in it. -/
def statements : Piece → List (List Piece)
  | nested body => body :: allStatements body
  | word _ | call _ | slot _ | table _ | source _ _ | target _ | column _ _ | name _
  | proposed _ => []
termination_by structural x => x

def allStatements : List Piece → List (List Piece)
  | [] => []
  | piece :: rest => statements piece ++ allStatements rest
termination_by structural x => x

end

@[simp] theorem allStatements_append (left right : List Piece) :
    allStatements (left ++ right) = allStatements left ++ allStatements right := by
  induction left with
  | nil => rfl
  | cons piece rest ih => simp [allStatements, ih]

@[simp] theorem allStatements_word_cons (text : String) (rest : List Piece) :
    allStatements (.word text :: rest) = allStatements rest := by
  simp [allStatements, statements]

@[simp] theorem allStatements_bracketed (body : List Piece) :
    allStatements (bracketed body) = allStatements body := by
  simp [bracketed, allStatements, statements]

@[simp] theorem allStatements_separated (word : String) (parts : List (List Piece)) :
    allStatements (separated word parts) = parts.flatMap allStatements := by
  induction parts with
  | nil => rfl
  | cons part rest ih =>
      cases rest with
      | nil => simp
      | cons next rest =>
          rw [separated_cons_cons, allStatements_append, allStatements_word_cons, ih]
          rfl

/-- Pieces within a scope nest no statements. -/
theorem AllWithin.allStatements_eq_nil {s : Scope} {pieces : List Piece}
    (h : AllWithin s pieces) : allStatements pieces = [] := by
  induction pieces with
  | nil => rfl
  | cons piece rest ih =>
      obtain ⟨hpiece, hrest⟩ := List.forall_mem_cons.mp h
      rw [allStatements, ih hrest]
      cases piece with
      | nested body => exact hpiece.elim
      | _ => rfl

end Piece

/-! ## Numbered references -/

/-- Tables with the aliases that follow each other from a position. -/
def numbered (tables : List Table) (position : Nat) : List (Table × Alias) :=
  (tables.zipIdx position).map fun (t, k) => (t, ⟨k⟩)

theorem numbered_append (left right : List Table) (position : Nat) :
    numbered (left ++ right) position =
      numbered left position ++ numbered right (position + left.length) := by
  simp [numbered, List.zipIdx_append]

theorem map_letter_numbered (tables : List Table) (position : Nat) :
    ((numbered tables position).map fun (_, a) => a.letter) =
      (List.range' position tables.length).map fun k => (⟨k⟩ : Alias).letter := by
  rw [← List.zipIdx_map_snd, numbered, List.map_map, List.map_map]
  rfl

/-- Up to 26 aliases in a row have different letters. -/
theorem nodup_letter_numbered {tables : List Table} (h : tables.length ≤ 26) (position : Nat) :
    ((numbered tables position).map fun (_, a) => a.letter).Nodup := by
  rw [map_letter_numbered, List.Nodup, List.pairwise_map]
  refine List.Pairwise.imp_of_mem ?_ List.pairwise_lt_range'
  intro k m hk hm hlt hletter
  have hnumber : k % 26 = m % 26 := Alias.letter_inj.mp hletter
  rw [List.mem_range'_1] at hk hm
  omega

theorem Scope.enter?_eq_some {table : Option Table} {join : Option Join}
    {supply after : AliasSupply} {s : Scope}
    (h : enter? table join supply = some (s, after)) :
    s.mainAlias = ⟨supply.issued⟩ ∧
      s.references = numbered (table.toList ++ (join.map Join.table).toList) supply.issued ∧
      after = supply.skip (table.toList ++ (join.map Join.table).toList).length := by
  cases table with
  | none => cases h
  | some t =>
      cases join with
      | none =>
          cases h
          exact ⟨rfl, rfl, rfl⟩
      | some join =>
          cases h
          exact ⟨rfl, rfl, rfl⟩

/-- A statement of a query with its scope and with the pieces it is lowered to. -/
structure Lowered where
  statement : Query
  scope : Scope
  pieces : List Piece

/-- From the position of its main alias the statement enters its scope and is lowered to its
pieces. -/
def Lowered.Runs (v : Vocabulary) (l : Lowered) : Prop :=
  ∃ entered after,
    Scope.enter? l.statement.table l.statement.join ⟨l.scope.mainAlias.position⟩ =
      some (l.scope, entered) ∧
    (Compile.query v l.statement).runFrom ⟨l.scope.mainAlias.position⟩ = (.ok l.pieces, after)

/-- Between two positions of the supply the statements are lowered to the bodies, and their
references draw all the aliases in between. -/
structure Numbers (v : Vocabulary) (statements : List Query) (bodies : List (List Piece))
    (supply after : AliasSupply) (runs : List Lowered) : Prop where
  statements_eq : runs.map Lowered.statement = statements
  bodies_eq : runs.map Lowered.pieces = bodies
  all_run : ∀ l ∈ runs, l.Runs v
  references_eq :
    (runs.flatMap fun l => l.scope.references) = numbered (references statements) supply.issued
  after_eq : after = supply.skip (references statements).length

namespace Numbers

variable {v : Vocabulary} {supply between after : AliasSupply}

theorem nil : Numbers v [] [] supply supply [] where
  statements_eq := rfl
  bodies_eq := rfl
  all_run := by simp
  references_eq := rfl
  after_eq := rfl

theorem append {ss ts : List Query} {bs cs : List (List Piece)} {ls ms : List Lowered}
    (h : Numbers v ss bs supply between ls) (hbehind : Numbers v ts cs between after ms) :
    Numbers v (ss ++ ts) (bs ++ cs) supply after (ls ++ ms) := by
  obtain rfl := h.after_eq
  obtain rfl := hbehind.after_eq
  exact {
    statements_eq := by rw [List.map_append, h.statements_eq, hbehind.statements_eq]
    bodies_eq := by rw [List.map_append, h.bodies_eq, hbehind.bodies_eq]
    all_run := List.forall_mem_append.mpr ⟨h.all_run, hbehind.all_run⟩
    references_eq := by
      rw [List.flatMap_append, h.references_eq, hbehind.references_eq, references_append,
        numbered_append]
      rfl
    after_eq := by simp [references_append, AliasSupply.skip, Nat.add_assoc] }

/-- A statement before those nested in it. -/
theorem cons {q : Query} {s : Scope} {pieces : List Piece} {entered : AliasSupply}
    {ss : List Query} {bs : List (List Piece)} {ls : List Lowered}
    (hs : Scope.enter? q.table q.join supply = some (s, entered))
    (hrun : (Compile.query v q).runFrom supply = (.ok pieces, after))
    (h : Numbers v ss bs entered after ls) :
    Numbers v (q :: ss) (pieces :: bs) supply after (⟨q, s, pieces⟩ :: ls) := by
  obtain ⟨hmain, hreferences, hentered⟩ := Scope.enter?_eq_some hs
  have hfirst : Numbers v [q] [pieces] supply entered [⟨q, s, pieces⟩] := {
    statements_eq := rfl
    bodies_eq := rfl
    all_run := by
      have hposition : (⟨s.mainAlias.position⟩ : AliasSupply) = supply := by rw [hmain]
      simpa [Lowered.Runs, hposition] using ⟨⟨entered, hs⟩, after, hrun⟩
    references_eq := by simpa [references, Query.tables] using hreferences
    after_eq := by simpa [references, Query.tables] using hentered }
  exact hfirst.append h

end Numbers

namespace Compile

open Statement
open Piece (allStatements)

variable {v : Vocabulary}

theorem numbers_comparison {s : Scope} {f : Field} {op : Operator} {x : Operand}
    {supply after : AliasSupply} {pieces : List Piece}
    (hx : ∀ {right}, (operand v x).runFrom supply = (.ok right, after) →
      ∃ runs, Numbers v x.statements (allStatements right) supply after runs)
    (h : (comparison v s f op (operand v x)).runFrom supply = (.ok pieces, after)) :
    ∃ runs, Numbers v x.statements (allStatements pieces) supply after runs := by
  obtain ⟨word, -, left, hleft, right, hright, rfl⟩ := comparison_ok.mp h
  have hnone := (field_within hleft).allStatements_eq_nil
  simpa [hnone] using hx hright

mutual

theorem numbers_operand : (x : Operand) → {supply after : AliasSupply} → {pieces : List Piece} →
    (operand v x).runFrom supply = (.ok pieces, after) →
    ∃ runs, Numbers v x.statements (allStatements pieces) supply after runs
  | .literal value, supply, after, pieces, h => by
      cases h
      exact ⟨[], .nil⟩
  | .list values, supply, after, pieces, h => by
      obtain ⟨-, rfl, rfl⟩ := operand_list_ok.mp h
      have hnone : allStatements (Piece.bracketed (Piece.separated ","
          (values.map fun value => [.slot value]))) = [] := by
        simp [List.flatMap_map, allStatements, Piece.statements]
      rw [hnone]
      exact ⟨[], .nil⟩
  | .null, supply, after, pieces, h => by
      cases h
      exact ⟨[], .nil⟩
  | .subquery q, supply, after, pieces, h => by
      obtain ⟨body, hbody, rfl⟩ := operand_subquery_ok.mp h
      simpa [Operand.statements, allStatements, Piece.statements] using numbers_query q hbody
termination_by structural x => x

theorem numbers_condition : (c : Condition) → {s : Scope} → {supply after : AliasSupply} →
    {pieces : List Piece} → (condition v s c).runFrom supply = (.ok pieces, after) →
    ∃ runs, Numbers v c.statements (allStatements pieces) supply after runs
  | .compare f op x, s, supply, after, pieces, h => by
      rw [condition] at h
      exact numbers_comparison (numbers_operand x) h
  | .spec spec x, s, supply, after, pieces, h => by
      obtain ⟨f, op, -, h⟩ := condition_spec_ok.mp h
      exact numbers_comparison (numbers_operand x) h
  | .group op conditions, s, supply, after, pieces, h => by
      obtain ⟨-, parts, hparts, rfl⟩ := condition_group_ok.mp h
      rw [Piece.allStatements_separated, Condition.statements]
      exact numbers_children conditions hparts
termination_by structural x => x

theorem numbers_children : (conditions : List Condition) → {s : Scope} →
    {supply after : AliasSupply} → {parts : List (List Piece)} →
    (children v s conditions).runFrom supply = (.ok parts, after) →
    ∃ runs, Numbers v (Condition.allStatements conditions) (parts.flatMap allStatements)
      supply after runs
  | [], s, supply, after, parts, h => by
      cases h
      exact ⟨[], .nil⟩
  | c :: rest, s, supply, after, parts, h => by
      obtain ⟨part, between, hpart, others, hothers, rfl⟩ := children_cons_ok.mp h
      obtain ⟨runs, hruns⟩ := numbers_condition c hpart
      obtain ⟨behind, hbehind⟩ := numbers_children rest hothers
      have hbrackets : allStatements (if c.isGroup then Piece.bracketed part else part) =
          allStatements part := by
        split <;> simp
      rw [List.flatMap_cons, hbrackets, Condition.allStatements]
      exact ⟨runs ++ behind, hruns.append hbehind⟩
termination_by structural x => x

theorem numbers_conditionClause (word : String) : (c : Option Condition) → {s : Scope} →
    {supply after : AliasSupply} → {pieces : List Piece} →
    (conditionClause v s word c).runFrom supply = (.ok pieces, after) →
    ∃ runs, Numbers v (Condition.optionStatements c) (allStatements pieces) supply after runs
  | none, s, supply, after, pieces, h => by
      cases h
      exact ⟨[], .nil⟩
  | some c, s, supply, after, pieces, h => by
      obtain ⟨part, hpart, rfl⟩ := conditionClause_some_ok.mp h
      rw [Piece.allStatements_word_cons, Condition.optionStatements]
      exact numbers_condition c hpart
termination_by structural x => x

/-- The statements of a query number their references one after the other. -/
theorem numbers_query : (q : Query) → {supply after : AliasSupply} → {pieces : List Piece} →
    (query v q).runFrom supply = (.ok pieces, after) →
    ∃ runs, Numbers v q.statements (pieces :: allStatements pieces) supply after runs
  | ⟨action, table, join, filter, having, orderBy, groupBy, limit, offset, upsert⟩, supply, after,
    pieces, h => by
      have hrun := h
      obtain ⟨s, entered, verb, filterPart, filtered, groupPart, havingPart, orderPart, hs, hverb,
        hfilter, hgroup, hhaving, horder, rfl⟩ := query_ok.mp h
      dsimp only at hs hverb hfilter hgroup hhaving horder hrun ⊢
      obtain ⟨filterRuns, hwhere⟩ := numbers_conditionClause "WHERE" filter hfilter
      obtain ⟨havingRuns, hhad⟩ := numbers_conditionClause "HAVING" having hhaving
      have hverb := (verbClause_within hverb).allStatements_eq_nil
      have hgroup := (groupByClause_within hgroup).allStatements_eq_nil
      have horder := (orderByClause_within horder).allStatements_eq_nil
      have hoffset := (countClause_within (s := s) "OFFSET" offset).allStatements_eq_nil
      have hlimit := (countClause_within (s := s) "LIMIT" limit).allStatements_eq_nil
      have hbodies : allStatements (verb ++ filterPart ++ groupPart ++ havingPart ++ orderPart ++
          offsetClause offset ++ limitClause limit) =
            allStatements filterPart ++ allStatements havingPart := by
        simp [hverb, hgroup, horder, offsetClause, limitClause, hoffset, hlimit]
      rw [Query.statements, hbodies]
      exact ⟨_, .cons hs hrun (hwhere.append hhad)⟩
termination_by structural x => x

end

end Compile

/-! ## The alias of every reference -/

/-- The references of a query take the letters that follow each other from the position at which
the compile starts, and the supply ends behind them. Every statement of the query is lowered in
the scope that holds its references, to the pieces at its place in the whole. Compiled on its own
the query has the same arguments, and the same pieces but for its aliases. -/
theorem Query.compile_numbers {d : Dialect} {q : Query} {supply after : AliasSupply} {c : Clause}
    (h : q.compile d supply = (.ok c, after)) :
    after = supply.skip q.references.length ∧
    ∃ (pieces : List Piece) (runs : List Lowered),
      c = Clause.ofPieces d pieces ∧
      runs.map Lowered.statement = q.statements ∧
      runs.map Lowered.pieces = pieces :: Piece.allStatements pieces ∧
      (∀ l ∈ runs, l.Runs d.toVocabulary) ∧
      ((runs.flatMap fun l => l.scope.references).map fun (t, a) => (t, a.letter)) =
        (q.references.zipIdx.map fun (t, k) =>
          (t, Char.ofNat ('a'.toNat + (supply.issued + k) % 26))) ∧
      ∃ own,
        q.compile d {} = (.ok (Clause.ofPieces d own), ⟨q.references.length⟩) ∧
        (Clause.ofPieces d own).args = c.args ∧
        pieces = Piece.moveAll supply.issued own ∧
        ∀ a : Alias, (a.move supply.issued).letter =
          Char.ofNat ('a'.toNat + (a.letter.toNat - 'a'.toNat + supply.issued) % 26) := by
  obtain ⟨pieces, hpieces, rfl⟩ := compile_ok.mp h
  obtain ⟨runs, hruns⟩ := Compile.numbers_query q hpieces
  refine ⟨hruns.after_eq, pieces, runs, rfl, hruns.statements_eq, hruns.bodies_eq, hruns.all_run,
    ?_, ?_⟩
  · rw [hruns.references_eq, numbered, List.map_map, List.zipIdx_eq_map_add, List.map_map]
    rfl
  · have hstart : ({} : AliasSupply).skip supply.issued = supply := by simp [AliasSupply.skip]
    obtain ⟨-, hagrees⟩ := Compile.query_moved d.toVocabulary q {} supply.issued
    rw [hstart, hpieces] at hagrees
    rcases hown : (Compile.query d.toVocabulary q).runFrom {} with ⟨e | own, ended⟩
    · rw [hown] at hagrees
      cases hagrees
    · rw [hown] at hagrees
      cases hagrees with
      | ok hmoved =>
          obtain ⟨ownRuns, hended⟩ := Compile.numbers_query q hown
          have hargs := (Compile.args_query (d := d) q hown).trans
            (Compile.args_query (d := d) q hpieces).symm
          refine ⟨own, ?_, hargs, hmoved, Alias.letter_move _⟩
          have hafter : ended = ⟨q.references.length⟩ := by
            simpa [AliasSupply.skip, Query.references] using hended.after_eq
          exact compile_ok.mpr ⟨own, hafter ▸ hown, rfl⟩

/-- The orders of users that have not been banned, where they have bought much. -/
def Query.largeOrders : Query where
  table := some ⟨"orders", none⟩
  join := some ⟨.inner, ⟨"users", none⟩, "user_id", "id"⟩
  action := some (.select [.named "users.name"])
  filter := some (.compare (.named "user_id") .notIn (.subquery
    { table := some ⟨"bans", none⟩
      action := some (.select [.named "user_id"])
      filter := some (.compare (.named "reason") .isIn (.subquery
        { table := some ⟨"reasons", none⟩
          action := some (.select [.named "id"]) })) }))
  having := some (.compare (.named "total") .gt (.subquery
    { table := some ⟨"limits", none⟩
      action := some (.select [.named "total"]) }))

/-- Of five references the second takes the last letter, and the third starts again. -/
theorem Query.compile_numbers_largeOrders :
    ∃ c, largeOrders.compile ShippedDialect.ansi.dialect ⟨24⟩ = (.ok c, ⟨29⟩) ∧
      ∃ runs : List Lowered,
        ((runs.flatMap fun l => l.scope.references).map fun (t, a) => (t.name, a.letter)) =
          [("orders", 'y'), ("users", 'z'), ("bans", 'a'), ("reasons", 'b'), ("limits", 'c')] := by
  obtain ⟨c, hcompile⟩ :
      ∃ c, largeOrders.compile ShippedDialect.ansi.dialect ⟨24⟩ = (.ok c, ⟨29⟩) := ⟨_, rfl⟩
  obtain ⟨-, -, runs, -, -, -, -, hletters, -⟩ := Query.compile_numbers hcompile
  refine ⟨c, hcompile, runs, ?_⟩
  have hnames := congrArg (List.map fun (t, letter) => (t.name, letter)) hletters
  rw [List.map_map] at hnames
  exact hnames

end BoundSql

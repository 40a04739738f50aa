import BoundSql.Compile
import BoundSql.Proofs.Lowering.Statement

/-! # Outcomes of compile steps

A step that starts at a position of the supply ends with a result or an error, and with the
supply after it. The lemmas here say what each step of a compile can end with; later modules cite
them and do not unfold the steps. -/

namespace BoundSql.Compile

open Piece (bracketed separated)
open Statement

variable {α β : Type}

/-! ## Sequences of steps -/

@[simp] theorem runFrom_pure (a : α) (supply : AliasSupply) :
    (pure a : Compile α).runFrom supply = (.ok a, supply) :=
  rfl

@[simp] theorem runFrom_lift (result : Except QueryError α) (supply : AliasSupply) :
    (lift result).runFrom supply = (result, supply) :=
  rfl

theorem runFrom_throw (e : QueryError) (supply : AliasSupply) :
    (throw e : Compile α).runFrom supply = (.error e, supply) :=
  rfl

/-- The second step starts where the first has ended, unless the first has failed. -/
theorem runFrom_bind (step : Compile α) (next : α → Compile β) (supply : AliasSupply) :
    (step >>= next).runFrom supply =
      match step.runFrom supply with
      | (.ok a, after) => (next a).runFrom after
      | (.error e, after) => (.error e, after) := by
  simp only [runFrom, ExceptT.run_bind, StateT.run_bind]
  rcases step.run.run supply with ⟨_ | _, after⟩ <;> rfl

theorem bind_ok {step : Compile α} {next : α → Compile β}
    {supply after : AliasSupply} {b : β} :
    (step >>= next).runFrom supply = (.ok b, after) ↔
      ∃ a between, step.runFrom supply = (.ok a, between) ∧
        (next a).runFrom between = (.ok b, after) := by
  rw [runFrom_bind]
  constructor
  · intro h
    rcases hstep : step.runFrom supply with ⟨_ | a, between⟩
    · simp [hstep] at h
    · exact ⟨a, between, rfl, by simpa [hstep] using h⟩
  · rintro ⟨a, between, hstep, h⟩
    simpa [hstep] using h

theorem lift_bind_ok {result : Except QueryError α} {next : α → Compile β}
    {supply after : AliasSupply} {b : β} :
    (lift result >>= next).runFrom supply = (.ok b, after) ↔
      ∃ a, result = .ok a ∧ (next a).runFrom supply = (.ok b, after) := by
  rw [runFrom_bind, runFrom_lift]
  cases result <;> simp

theorem bind_pure_ok {step : Compile α} {f : α → β} {supply after : AliasSupply} {b : β} :
    (step >>= fun a => pure (f a)).runFrom supply = (.ok b, after) ↔
      ∃ a, step.runFrom supply = (.ok a, after) ∧ b = f a := by
  rw [bind_ok]
  constructor
  · rintro ⟨a, between, hstep, h⟩
    obtain ⟨rfl, rfl⟩ : f a = b ∧ between = after := by simpa using h
    exact ⟨a, hstep, rfl⟩
  · rintro ⟨a, hstep, rfl⟩
    exact ⟨a, after, hstep, rfl⟩

/-- Entering a statement fails only where no table is set, before any alias is drawn. -/
theorem runFrom_enter (table : Option Table) (join : Option Join) (supply : AliasSupply) :
    (enter table join).runFrom supply =
      match Scope.enter? table join supply with
      | none => (.error .missingTable, supply)
      | some (s, after) => (.ok s, after) := by
  have hget : (get : Compile AliasSupply).runFrom supply = (.ok supply, supply) := rfl
  rw [enter, runFrom_bind, hget]
  dsimp only
  cases Scope.enter? table join supply <;> rfl

/-! ## What a successful step is -/

theorem enter_ok {table : Option Table} {join : Option Join} {supply after : AliasSupply}
    {s : Scope} :
    (enter table join).runFrom supply = (.ok s, after) ↔
      Scope.enter? table join supply = some (s, after) := by
  rw [runFrom_enter]
  rcases Scope.enter? table join supply with _ | ⟨_, _⟩ <;> simp

theorem comparison_ok {v : Vocabulary} {s : Scope} {f : Field} {op : Operator}
    {x : Compile (List Piece)} {supply after : AliasSupply} {pieces : List Piece} :
    (comparison v s f op x).runFrom supply = (.ok pieces, after) ↔
      ∃ word, v.operator op = .ok word ∧ ∃ left, field v s f = .ok left ∧
        ∃ right, x.runFrom supply = (.ok right, after) ∧
          pieces = bracketed (left ++ .word word :: right) := by
  simp only [comparison, lift_bind_ok, bind_pure_ok, lookup_eq_ok]

theorem operand_list_ok {v : Vocabulary} {values : List Value} {supply after : AliasSupply}
    {pieces : List Piece} :
    (operand v (.list values)).runFrom supply = (.ok pieces, after) ↔
      values ≠ [] ∧ pieces = bracketed (separated "," (values.map fun value => [.slot value])) ∧
        after = supply := by
  cases values <;> simp [operand, runFrom_throw, eq_comm]

theorem operand_subquery_ok {v : Vocabulary} {q : Query} {supply after : AliasSupply}
    {pieces : List Piece} :
    (operand v (.subquery q)).runFrom supply = (.ok pieces, after) ↔
      ∃ body, (query v q).runFrom supply = (.ok body, after) ∧ pieces = [.nested body] := by
  simp only [operand, bind_pure_ok]

theorem condition_spec_ok {v : Vocabulary} {s : Scope} {spec : String} {x : Operand}
    {supply after : AliasSupply} {pieces : List Piece} :
    (condition v s (.spec spec x)).runFrom supply = (.ok pieces, after) ↔
      ∃ f op, Specifier.parse spec = .ok (f, op) ∧
        (comparison v s f op (operand v x)).runFrom supply = (.ok pieces, after) := by
  simp only [condition, lift_bind_ok, Prod.exists]

theorem condition_group_ok {v : Vocabulary} {s : Scope} {op : LogicalOp}
    {conditions : List Condition} {supply after : AliasSupply} {pieces : List Piece} :
    (condition v s (.group op conditions)).runFrom supply = (.ok pieces, after) ↔
      conditions ≠ [] ∧ ∃ parts, (children v s conditions).runFrom supply = (.ok parts, after) ∧
        pieces = separated (v.logical op) parts := by
  cases conditions with
  | nil => simp [condition, runFrom_throw]
  | cons c rest =>
      simp only [condition, List.isEmpty_cons, Bool.false_eq_true, if_false, bind_pure_ok, ne_eq,
        reduceCtorEq, not_false_eq_true, true_and]

theorem children_cons_ok {v : Vocabulary} {s : Scope} {c : Condition} {rest : List Condition}
    {supply after : AliasSupply} {parts : List (List Piece)} :
    (children v s (c :: rest)).runFrom supply = (.ok parts, after) ↔
      ∃ part between, (condition v s c).runFrom supply = (.ok part, between) ∧
        ∃ others, (children v s rest).runFrom between = (.ok others, after) ∧
          parts = (if c.isGroup then bracketed part else part) :: others := by
  rw [children, bind_ok]
  simp only [bind_pure_ok]

theorem conditionClause_some_ok {v : Vocabulary} {s : Scope} {word : String} {c : Condition}
    {supply after : AliasSupply} {pieces : List Piece} :
    (conditionClause v s word (some c)).runFrom supply = (.ok pieces, after) ↔
      ∃ part, (condition v s c).runFrom supply = (.ok part, after) ∧
        pieces = .word word :: part := by
  simp only [conditionClause, bind_pure_ok]

/-- A lowered query is its verb and the clauses after it, every one lowered in the scope of the
query. Only the two condition clauses draw aliases. -/
theorem query_ok {v : Vocabulary} {q : Query} {supply after : AliasSupply}
    {pieces : List Piece} :
    (query v q).runFrom supply = (.ok pieces, after) ↔
      ∃ s entered verb filterPart filtered groupPart havingPart orderPart,
        Scope.enter? q.table q.join supply = some (s, entered) ∧
        verbClause v s q.action q.upsert = .ok verb ∧
        (conditionClause v s "WHERE" q.filter).runFrom entered = (.ok filterPart, filtered) ∧
        groupByClause v s q.groupBy = .ok groupPart ∧
        (conditionClause v s "HAVING" q.having).runFrom filtered = (.ok havingPart, after) ∧
        orderByClause v s q.orderBy = .ok orderPart ∧
        pieces = verb ++ filterPart ++ groupPart ++ havingPart ++ orderPart ++
          offsetClause q.offset ++ limitClause q.limit := by
  obtain ⟨action, table, join, filter, having, orderBy, groupBy, limit, offset, upsert⟩ := q
  simp only [query, bind_ok, enter_ok, runFrom_lift, runFrom_pure, Prod.mk.injEq,
    Except.ok.injEq]
  constructor
  · rintro ⟨s, entered, hs, verb, _, ⟨hverb, rfl⟩, filterPart, filtered, hfilter, groupPart, _,
      ⟨hgroup, rfl⟩, havingPart, had, hhaving, orderPart, _, ⟨horder, rfl⟩, rfl, rfl⟩
    exact ⟨s, _, verb, filterPart, _, groupPart, havingPart, orderPart, hs, hverb, hfilter,
      hgroup, hhaving, horder, rfl⟩
  · rintro ⟨s, entered, verb, filterPart, filtered, groupPart, havingPart, orderPart, hs, hverb,
      hfilter, hgroup, hhaving, horder, rfl⟩
    exact ⟨s, _, hs, verb, _, ⟨hverb, rfl⟩, filterPart, _, hfilter, groupPart, _, ⟨hgroup, rfl⟩,
      havingPart, _, hhaving, orderPart, _, ⟨horder, rfl⟩, rfl, rfl⟩

end BoundSql.Compile

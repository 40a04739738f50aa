import BoundSql.Proofs.Editing
import BoundSql.Proofs.Numbering
import Mathlib.Data.List.Nodup

/-! # What building keeps to

Rows that are set column by column have every column once. A query that is built from such rows and
from queries built likewise keeps to rules that the compiler does not look at again: its conditions
are conjunctions of something, it counts no negative number of rows, and it inserts and assigns
something. -/

namespace BoundSql

/-! ## Rows -/

/-- Rows that come of setting columns. -/
inductive Row.Built : Row → Prop
  | empty : Built .empty
  | set {row : Row} (column : String) (value : Value) : row.Built → Built (row.set column value)

namespace Row

theorem built_ofList (entries : List (String × Value)) : (ofList entries).Built := by
  induction entries using List.reverseRecOn with
  | nil => exact .empty
  | append_singleton entries entry ih =>
      rw [ofList, List.foldl_append]
      exact .set entry.1 entry.2 ih

theorem map_fst_setEntry (column : String) (value : Value) (entries : List (String × Value)) :
    (setEntry column value entries).map Prod.fst =
      if column ∈ entries.map Prod.fst then entries.map Prod.fst
      else entries.map Prod.fst ++ [column] := by
  induction entries with
  | nil => simp [setEntry]
  | cons entry rest ih =>
      obtain ⟨c, v⟩ := entry
      by_cases hc : c = column
      · simp [setEntry, hc]
      · rw [setEntry, if_neg hc, List.map_cons, ih]
        have hne : column ≠ c := fun h => hc h.symm
        by_cases hmem : column ∈ rest.map Prod.fst
        · simp [hmem, -List.mem_map]
        · simp [hmem, hne, -List.mem_map]

/-- A column that is set again keeps its place; any other comes last. -/
theorem columns_set (row : Row) (column : String) (value : Value) :
    (row.set column value).columns =
      if column ∈ row.columns then row.columns else row.columns ++ [column] :=
  map_fst_setEntry column value row.entries

theorem Built.nodup_columns {row : Row} (h : row.Built) : row.columns.Nodup := by
  induction h with
  | empty => exact List.nodup_nil
  | @set row column value _ ih =>
      rw [columns_set]
      by_cases hmem : column ∈ row.columns
      · rwa [if_pos hmem]
      · rw [if_neg hmem]
        exact List.nodup_append_comm.mp (List.nodup_cons.mpr ⟨hmem, ih⟩)

end Row

/-! ## What a query is made of -/

/-- The rows that an action writes. -/
def Action.rows : Action → List Row
  | select _ => []
  | update assignments => [assignments]
  | insert rows _ => rows
  | delete => []

/-- The rows that an upsert assigns. -/
def Upsert.rows : Upsert → List Row
  | proposed => []
  | assign assignments => [assignments]

/-- The queries that the right side of a comparison consists of. -/
def Operand.subqueries : Operand → List Query
  | literal _ => []
  | list _ => []
  | null => []
  | subquery q => [q]

mutual

/-- The queries that a condition compares with, those nested in them left out. -/
def Condition.subqueries : Condition → List Query
  | compare _ _ x => x.subqueries
  | spec _ x => x.subqueries
  | group _ conditions => Condition.allSubqueries conditions
termination_by structural c => c

def Condition.allSubqueries : List Condition → List Query
  | [] => []
  | c :: rest => Condition.subqueries c ++ Condition.allSubqueries rest
termination_by structural conditions => conditions

end

theorem Operand.statements_eq_flatMap (x : Operand) :
    x.statements = x.subqueries.flatMap Query.statements := by
  cases x <;> simp [statements, subqueries]

mutual

theorem Condition.statements_eq_flatMap : (c : Condition) →
    c.statements = c.subqueries.flatMap Query.statements
  | .compare _ _ x => x.statements_eq_flatMap
  | .spec _ x => x.statements_eq_flatMap
  | .group _ conditions => by
    rw [statements, subqueries, Condition.allStatements_eq_flatMap conditions]
termination_by structural c => c

theorem Condition.allStatements_eq_flatMap : (conditions : List Condition) →
    allStatements conditions = (allSubqueries conditions).flatMap Query.statements
  | [] => rfl
  | c :: rest => by
    rw [allStatements, allSubqueries, List.flatMap_append, Condition.statements_eq_flatMap c,
      Condition.allStatements_eq_flatMap rest]
termination_by structural conditions => conditions

end

namespace Query

/-- The rows of a query itself. -/
def rows (q : Query) : List Row :=
  q.action.elim [] Action.rows ++ q.upsert.elim [] Upsert.rows

/-- The queries that the conditions of a query compare with. -/
def subqueries (q : Query) : List Query :=
  q.filter.elim [] Condition.subqueries ++ q.having.elim [] Condition.subqueries

theorem statements_eq_flatMap (q : Query) :
    q.statements = q :: q.subqueries.flatMap statements := by
  have hoption (c : Option Condition) : Condition.optionStatements c =
      (c.elim [] Condition.subqueries).flatMap statements := by
    cases c with
    | none => rfl
    | some c => exact c.statements_eq_flatMap
  rw [statements_eq, hoption, hoption, subqueries, List.flatMap_append]

variable {q source : Query} {p : Part}

theorem mem_rows_withPart {row : Row} (h : row ∈ (q.withPart p source).rows) :
    row ∈ q.rows ∨ row ∈ source.rows := by
  cases p <;> simp only [withPart, rows, List.mem_append] at h ⊢ <;> tauto

theorem mem_subqueries_withPart {r : Query} (h : r ∈ (q.withPart p source).subqueries) :
    r ∈ q.subqueries ∨ r ∈ source.subqueries := by
  cases p <;> simp only [withPart, subqueries, List.mem_append] at h ⊢ <;> tauto

end Query

/-! ## The rules of building -/

/-- The condition joins something by AND. -/
def Condition.IsConjunction (c : Condition) : Prop :=
  ∃ conditions, c = group .and conditions ∧ conditions ≠ []

/-- A number of rows that can be counted: not a negative one, and no more than 64 bits hold. -/
def CountsRows (n : Int) : Prop :=
  0 ≤ n ∧ n ≤ 9223372036854775807

/-- The rules that a query itself keeps to when it is built. -/
structure Query.Regular (q : Query) : Prop where
  filter : ∀ c ∈ q.filter, c.IsConjunction
  having : ∀ c ∈ q.having, c.IsConjunction
  limit : ∀ n ∈ q.limit, CountsRows n.toInt
  offset : ∀ n ∈ q.offset, CountsRows n.toInt
  insert : ∀ rows mode, q.action = some (.insert rows mode) →
    rows ≠ [] ∧ ∀ row ∈ rows, row.columns ≠ []
  upsert : ∀ row, q.upsert = some (.assign row) → row.columns ≠ []
  columns : ∀ row ∈ q.rows, row.columns.Nodup

/-- A query and all queries nested in it keep to the rules. -/
def Query.Sound (q : Query) : Prop :=
  ∀ s ∈ q.statements, s.Regular

namespace Query

theorem sound_iff {q : Query} : q.Sound ↔ q.Regular ∧ ∀ r ∈ q.subqueries, r.Sound := by
  rw [Sound, statements_eq_flatMap, List.forall_mem_cons]
  simp only [List.mem_flatMap, Sound]
  exact and_congr_right fun _ => ⟨fun h r hr s hs => h s ⟨r, hr, hs⟩,
    fun h s ⟨r, hr, hs⟩ => h r hr s hs⟩

theorem regular_empty : Query.empty.Regular where
  filter := nofun
  having := nofun
  limit := nofun
  offset := nofun
  insert := nofun
  upsert := nofun
  columns := nofun

theorem sound_empty : Query.empty.Sound :=
  sound_iff.mpr ⟨regular_empty, nofun⟩

/-- Each rule is about one part, except that rows are in two. -/
theorem Regular.withPart {q source : Query} (hq : q.Regular) (hsource : source.Regular)
    (p : Part) : (q.withPart p source).Regular := by
  have hcolumns : ∀ row ∈ (q.withPart p source).rows, row.columns.Nodup := fun row hrow =>
    (mem_rows_withPart hrow).elim (hq.columns row) (hsource.columns row)
  cases p with
  | action => exact { hq with insert := hsource.insert, columns := hcolumns }
  | filter => exact { hq with filter := hsource.filter }
  | having => exact { hq with having := hsource.having }
  | limit => exact { hq with limit := hsource.limit }
  | offset => exact { hq with offset := hsource.offset }
  | upsert => exact { hq with upsert := hsource.upsert, columns := hcolumns }
  | _ => exact { hq with }

theorem Sound.withPart {q source : Query} (hq : q.Sound) (hsource : source.Sound) (p : Part) :
    (q.withPart p source).Sound := by
  rw [sound_iff] at hq hsource ⊢
  exact ⟨hq.1.withPart hsource.1 p, fun r hr =>
    (mem_subqueries_withPart hr).elim (hq.2 r) (hsource.2 r)⟩

end Query

/-! ## What is refused -/

/-- What an edit is refused for. -/
inductive Edit.Refused : Edit → QueryError → Prop
  | filter : Refused (filter []) (.noConditions "filter")
  | having : Refused (having []) (.noConditions "having")
  | noRows (mode : InsertMode) : Refused (insert [] mode) .buildNoRows
  | noColumns {rows : List Row} {row : Row} (mode : InsertMode) :
    row ∈ rows → row.columns = [] → Refused (insert rows mode) .buildNoColumns
  | limit {count : Int} :
    ¬CountsRows count → Refused (limit count) (.notNonNegative "limit")
  | offset {count : Int} :
    ¬CountsRows count → Refused (offset count) (.notNonNegative "offset")

namespace Edit

/-- The rows that an edit brings. -/
def rows : Edit → List Row
  | update assignments => [assignments]
  | insert rows _ => rows
  | upsertWith assignments => [assignments]
  | _ => []

/-- The queries that the conditions of an edit compare with. -/
def subqueries : Edit → List Query
  | filter conditions => Condition.allSubqueries conditions
  | having conditions => Condition.allSubqueries conditions
  | _ => []

theorem conjunction_eq_ok {clause : String} {conditions : List Condition} {c : Condition}
    (h : conjunction clause conditions = .ok c) :
    c = .group .and conditions ∧ conditions ≠ [] := by
  cases conditions with
  | nil => cases h
  | cons first rest =>
      cases h
      exact ⟨rfl, List.cons_ne_nil first rest⟩

theorem conjunction_eq_error {clause : String} {conditions : List Condition}
    {cause : QueryError} :
    conjunction clause conditions = .error cause ↔
      conditions = [] ∧ cause = .noConditions clause := by
  cases conditions <;> simp [conjunction, eq_comm]

theorem countsRows_iff {count : Int} :
    CountsRows count ↔ 0 ≤ count ∧ count ≤ Int64.maxValue.toInt :=
  Iff.rfl

theorem rowCount_eq_ok {clause : String} {count : Int} {n : Int64}
    (h : rowCount clause count = .ok n) : CountsRows n.toInt ∧ n.toInt = count := by
  have hmax : Int64.maxValue.toInt = 9223372036854775807 := rfl
  rw [rowCount] at h
  split at h
  · next hcount =>
    obtain rfl : Int64.ofInt count = n := by simpa using h
    have hn : (Int64.ofInt count).toInt = count :=
      Int64.toInt_ofInt_of_le (by omega) (by omega)
    exact ⟨countsRows_iff.mpr (hn.symm ▸ hcount), hn⟩
  · cases h

theorem rowCount_eq_error {clause : String} {count : Int} {cause : QueryError} :
    rowCount clause count = .error cause ↔
      ¬CountsRows count ∧ cause = .notNonNegative clause := by
  rw [rowCount, countsRows_iff]
  split <;> simp_all [eq_comm]

theorem map_eq_error {α : Type} {x : Except QueryError α} {f : α → Query} {cause : QueryError}
    (h : x.map f = .error cause) : x = .error cause := by
  cases x with
  | error other => exact congrArg _ (Except.error.inj h)
  | ok value => cases h

theorem map_eq_ok {α : Type} {x : Except QueryError α} {f : α → Query} {made : Query}
    (h : x.map f = .ok made) : ∃ value, x = .ok value ∧ f value = made := by
  cases x with
  | error cause => cases h
  | ok value => exact ⟨value, rfl, Except.ok.inj h⟩

theorem isEmpty_iff_columns {row : Row} : row.isEmpty = true ↔ row.columns = [] := by
  simp [Row.isEmpty, Row.columns]

theorem checkRows_eq_ok {rows : List Row} {u : Unit} (h : checkRows rows = .ok u) :
    rows ≠ [] ∧ ∀ row ∈ rows, row.columns ≠ [] := by
  rw [checkRows] at h
  split at h
  · cases h
  · next hrows =>
    split at h
    · cases h
    · next hcolumns =>
      refine ⟨by simpa using hrows, fun row hrow hnone => hcolumns ?_⟩
      exact List.any_eq_true.mpr ⟨row, hrow, isEmpty_iff_columns.mpr hnone⟩

theorem checkRows_eq_error {rows : List Row} {cause : QueryError} :
    checkRows rows = .error cause ↔
      rows = [] ∧ cause = .buildNoRows ∨
        (∃ row ∈ rows, row.columns = []) ∧ cause = .buildNoColumns := by
  cases rows with
  | nil => simpa [checkRows] using eq_comm
  | cons first rest =>
      have hany : (∃ row ∈ first :: rest, row.columns = []) ↔
          (first :: rest).any Row.isEmpty = true := by
        simp only [List.any_eq_true, isEmpty_iff_columns]
      rw [hany, checkRows, List.isEmpty_cons, if_neg Bool.false_ne_true]
      cases (first :: rest).any Row.isEmpty with
      | false => simp
      | true => simp [eq_comm]

theorem upsertOf_eq_assign {assignments row : Row} (h : upsertOf assignments = .assign row) :
    row.columns ≠ [] := by
  rw [upsertOf] at h
  split at h
  · cases h
  · next hsome =>
    cases h
    exact fun hnone => hsome (isEmpty_iff_columns.mpr hnone)

theorem mem_rows_upsertOf {assignments row : Row} (h : row ∈ (upsertOf assignments).rows) :
    row ∈ [assignments] := by
  rw [upsertOf] at h
  split at h
  · cases h
  · exact h

/-- An edit is refused for these causes only, by every query alike. -/
theorem apply_eq_error {q : Query} {e : Edit} {cause : QueryError} :
    apply q e = .error cause ↔ e.Refused cause := by
  constructor
  · intro h
    cases e with
    | insert rows mode =>
        rcases checkRows_eq_error.mp (map_eq_error h) with
          ⟨rfl, rfl⟩ | ⟨⟨row, hrow, hnone⟩, rfl⟩
        · exact .noRows mode
        · exact .noColumns mode hrow hnone
    | filter conditions =>
        obtain ⟨rfl, rfl⟩ := conjunction_eq_error.mp (map_eq_error h)
        exact .filter
    | having conditions =>
        obtain ⟨rfl, rfl⟩ := conjunction_eq_error.mp (map_eq_error h)
        exact .having
    | limit count =>
        obtain ⟨hcount, rfl⟩ := rowCount_eq_error.mp (map_eq_error h)
        exact .limit hcount
    | offset count =>
        obtain ⟨hcount, rfl⟩ := rowCount_eq_error.mp (map_eq_error h)
        exact .offset hcount
    | _ => cases h
  · intro h
    cases h with
    | filter => rfl
    | having => rfl
    | noRows mode => rfl
    | noColumns mode hrow hnone =>
        rw [apply, checkRows_eq_error.mpr (.inr ⟨⟨_, hrow, hnone⟩, rfl⟩)]
        rfl
    | limit hcount =>
        rw [apply, rowCount_eq_error.mpr ⟨hcount, rfl⟩]
        rfl
    | offset hcount =>
        rw [apply, rowCount_eq_error.mpr ⟨hcount, rfl⟩]
        rfl

theorem Refused.validation {e : Edit} {cause : QueryError} (h : e.Refused cause) :
    ∃ text, cause = .validation text := by
  cases h <;> exact ⟨_, rfl⟩

/-- An accepted edit writes a query that keeps to the rules, if its rows and queries do. -/
theorem sound_of_apply {e : Edit} {made : Query} (hrows : ∀ row ∈ e.rows, row.columns.Nodup)
    (hsubqueries : ∀ r ∈ e.subqueries, r.Sound) (h : apply .empty e = .ok made) : made.Sound := by
  have hempty := Query.regular_empty
  rw [Query.sound_iff]
  cases e with
  | select fields =>
      cases h
      exact ⟨{ hempty with insert := nofun }, nofun⟩
  | update assignments =>
      cases h
      exact ⟨{ hempty with insert := nofun, columns := hrows }, nofun⟩
  | insert rows mode =>
      obtain ⟨⟨⟩, hchecked, rfl⟩ := map_eq_ok h
      have hsome := checkRows_eq_ok hchecked
      refine ⟨{ hempty with insert := ?_, columns := ?_ }, nofun⟩
      · rintro _ _ ⟨⟩
        exact hsome
      · simpa [Query.rows, Query.empty, Action.rows, Edit.rows] using hrows
  | delete =>
      cases h
      exact ⟨{ hempty with insert := nofun }, nofun⟩
  | filter conditions =>
      obtain ⟨c, hc, rfl⟩ := map_eq_ok h
      obtain ⟨rfl, hne⟩ := conjunction_eq_ok hc
      refine ⟨{ hempty with filter := ?_ }, ?_⟩
      · rintro _ ⟨⟩
        exact ⟨conditions, rfl, hne⟩
      · simpa [Query.subqueries, Query.empty, Condition.subqueries, subqueries] using hsubqueries
  | having conditions =>
      obtain ⟨c, hc, rfl⟩ := map_eq_ok h
      obtain ⟨rfl, hne⟩ := conjunction_eq_ok hc
      refine ⟨{ hempty with having := ?_ }, ?_⟩
      · rintro _ ⟨⟩
        exact ⟨conditions, rfl, hne⟩
      · simpa [Query.subqueries, Query.empty, Condition.subqueries, subqueries] using hsubqueries
  | limit count =>
      obtain ⟨n, hn, rfl⟩ := map_eq_ok h
      refine ⟨{ hempty with limit := ?_ }, nofun⟩
      rintro _ ⟨⟩
      exact (rowCount_eq_ok hn).1
  | offset count =>
      obtain ⟨n, hn, rfl⟩ := map_eq_ok h
      refine ⟨{ hempty with offset := ?_ }, nofun⟩
      rintro _ ⟨⟩
      exact (rowCount_eq_ok hn).1
  | upsert =>
      cases h
      exact ⟨{ hempty with upsert := nofun }, nofun⟩
  | upsertWith assignments =>
      cases h
      refine ⟨{ hempty with
        upsert := fun row hassign => upsertOf_eq_assign (Option.some.inj hassign)
        columns := fun row hrow => hrows row (mem_rows_upsertOf hrow) }, nofun⟩
  | _ =>
      cases h
      exact ⟨{ hempty with }, nofun⟩

end Edit

/-! ## Building -/

/-- A step in building a query. -/
inductive BuildStep where
  /-- Start again with an empty query. -/
  | new
  /-- Start again with an empty query and edit it. -/
  | create (first : Edit)
  /-- Edit the query that is there. -/
  | edit (next : Edit)

namespace BuildStep

/-- The query after the step, or why the step is refused. -/
def apply (q : Query) : BuildStep → Except QueryError Query
  | new => .ok .empty
  | create first => Edit.apply .empty first
  | edit next => Edit.apply q next

/-- The query after the step; the same query if the step is refused. -/
def applyOrKeep (q : Query) (step : BuildStep) : Query :=
  match apply q step with
  | .ok changed => changed
  | .error _ => q

/-- The edit that is made by the step. -/
def edit? : BuildStep → Option Edit
  | new => none
  | create e | edit e => some e

theorem apply_eq_error {q : Query} {step : BuildStep} {cause : QueryError} :
    apply q step = .error cause ↔ ∃ e ∈ step.edit?, e.Refused cause := by
  cases step with
  | new => simp [apply, edit?]
  | create e | edit e => simp [apply, edit?, Edit.apply_eq_error]

/-- A step writes a part of an empty query or of the query that is there. -/
theorem apply_eq_ok {q made : Query} {step : BuildStep} (h : apply q step = .ok made) :
    made = .empty ∨ ∃ e ∈ step.edit?, Edit.apply .empty e = .ok made ∨
      ∃ written, Edit.apply .empty e = .ok written ∧ made = q.withPart e.part written := by
  cases step with
  | new => exact .inl (Except.ok.inj h).symm
  | create e => exact .inr ⟨e, rfl, .inl h⟩
  | edit e =>
      rw [apply, Edit.apply_eq] at h
      obtain ⟨written, hwritten, rfl⟩ := Edit.map_eq_ok h
      exact .inr ⟨e, rfl, .inr ⟨written, hwritten, rfl⟩⟩

end BuildStep

/-- The query that is built in steps from an empty one, those that are refused left out. -/
def Query.built (steps : List BuildStep) : Query :=
  steps.foldl BuildStep.applyOrKeep .empty

/-- Queries that are built from built rows and built queries. -/
inductive Query.Built : Query → Prop
  | steps (steps : List BuildStep)
    (rows : ∀ step ∈ steps, ∀ e ∈ step.edit?, ∀ row ∈ e.rows, row.Built)
    (subqueries : ∀ step ∈ steps, ∀ e ∈ step.edit?, ∀ r ∈ e.subqueries, Built r) :
    Built (.built steps)

namespace Query

theorem built_append_singleton (steps : List BuildStep) (s : BuildStep) :
    built (steps ++ [s]) = s.applyOrKeep (built steps) :=
  List.foldl_append

/-- What holds of an empty query and is kept by steps holds of what is built. -/
theorem built_induction {motive : Query → Prop} {steps : List BuildStep} (empty : motive .empty)
    (step : ∀ q changed, ∀ s ∈ steps, motive q → s.apply q = .ok changed → motive changed) :
    motive (built steps) := by
  induction steps using List.reverseRecOn with
  | nil => exact empty
  | append_singleton steps s ih =>
      have hbefore := ih fun q changed r hr => step q changed r (List.mem_append_left _ hr)
      rw [built_append_singleton, BuildStep.applyOrKeep]
      cases hs : s.apply (built steps) with
      | error cause => exact hbefore
      | ok changed => exact step _ changed s (by simp) hbefore hs

theorem sound_built_of_edits {steps : List BuildStep}
    (hrows : ∀ step ∈ steps, ∀ e ∈ step.edit?, ∀ row ∈ e.rows, row.columns.Nodup)
    (hsubqueries : ∀ step ∈ steps, ∀ e ∈ step.edit?, ∀ r ∈ e.subqueries, r.Sound) :
    (built steps).Sound := by
  refine built_induction sound_empty fun q changed step hstep hq h => ?_
  rcases BuildStep.apply_eq_ok h with rfl | ⟨e, he, hmade | ⟨written, hwritten, rfl⟩⟩
  · exact sound_empty
  · exact Edit.sound_of_apply (hrows step hstep e he) (hsubqueries step hstep e he) hmade
  · exact hq.withPart
      (Edit.sound_of_apply (hrows step hstep e he) (hsubqueries step hstep e he) hwritten) e.part

theorem Built.sound {q : Query} (h : q.Built) : q.Sound := by
  induction h with
  | steps steps hrows _ ih =>
      exact sound_built_of_edits
        (fun step hstep e he row hrow => (hrows step hstep e he row hrow).nodup_columns) ih

end Query

/-! ## The numbers of rows -/

/-- A clause that counts rows. -/
inductive CountClause where
  | limit | offset

namespace CountClause

/-- The number that a query has for the clause. -/
def of (q : Query) : CountClause → Option Int64
  | limit => q.limit
  | offset => q.offset

/-- The number that an edit gives for the clause. -/
def given : CountClause → Edit → Option Int
  | limit, .limit count => some count
  | offset, .offset count => some count
  | _, _ => none

/-- An edit changes the number for a clause only if it gives one itself. -/
theorem given_of_apply {k : CountClause} {q made : Query} {e : Edit} {n : Int64}
    (h : Edit.apply q e = .ok made) (hn : k.of made = some n) :
    k.given e = some n.toInt ∨ k.given e = none ∧ k.of q = some n := by
  cases e with
  | limit count =>
      obtain ⟨m, hm, rfl⟩ := Edit.map_eq_ok h
      cases k with
      | limit =>
          obtain rfl : m = n := Option.some.inj hn
          exact .inl (congrArg some (Edit.rowCount_eq_ok hm).2.symm)
      | offset => exact .inr ⟨rfl, hn⟩
  | offset count =>
      obtain ⟨m, hm, rfl⟩ := Edit.map_eq_ok h
      cases k with
      | limit => exact .inr ⟨rfl, hn⟩
      | offset =>
          obtain rfl : m = n := Option.some.inj hn
          exact .inl (congrArg some (Edit.rowCount_eq_ok hm).2.symm)
  | insert _ _ | filter _ | having _ =>
      obtain ⟨_, -, rfl⟩ := Edit.map_eq_ok h
      cases k <;> exact .inr ⟨rfl, hn⟩
  | _ =>
      cases h
      cases k <;> exact .inr ⟨rfl, hn⟩

/-- The number for the clause that was accepted last. -/
def lastAccepted (k : CountClause) (steps : List BuildStep) : Option Int :=
  ((acceptedSteps BuildStep.apply .empty steps).filterMap fun s => s.edit?.bind k.given).getLast?

theorem given_of_step {k : CountClause} {q made : Query} {step : BuildStep} {n : Int64}
    (h : step.apply q = .ok made) (hn : k.of made = some n) :
    step.edit?.bind k.given = some n.toInt ∨
      step.edit?.bind k.given = none ∧ k.of q = some n := by
  have hempty : k.of .empty = none := by cases k <;> rfl
  cases step with
  | new =>
      cases h
      simp [hempty] at hn
  | create e =>
      rcases given_of_apply h hn with hgiven | ⟨-, hq⟩
      · exact .inl hgiven
      · simp [hempty] at hq
  | edit e => exact given_of_apply h hn

end CountClause

theorem BuildStep.acceptedSteps_append_singleton (q : Query) (steps : List BuildStep)
    (s : BuildStep) :
    acceptedSteps apply q (steps ++ [s]) = acceptedSteps apply q steps ++
      if (apply (steps.foldl applyOrKeep q) s).toBool then [s] else [] := by
  induction steps generalizing q with
  | nil =>
      rw [List.nil_append, acceptedSteps]
      cases h : apply q s <;> simp [acceptedSteps, h, Except.toBool]
  | cons t rest ih =>
      rw [List.cons_append, acceptedSteps, acceptedSteps, List.foldl_cons, applyOrKeep]
      cases apply q t with
      | error cause => exact ih q
      | ok changed => exact congrArg (t :: ·) (ih changed)

theorem CountClause.lastAccepted_append_singleton (k : CountClause) (steps : List BuildStep)
    (s : BuildStep) :
    k.lastAccepted (steps ++ [s]) =
      (if (s.apply (Query.built steps)).toBool then s.edit?.bind k.given else none).or
        (k.lastAccepted steps) := by
  rw [lastAccepted, BuildStep.acceptedSteps_append_singleton, List.filterMap_append,
    List.getLast?_append, Query.built, lastAccepted]
  congr 1
  cases (s.apply (steps.foldl BuildStep.applyOrKeep .empty)).toBool with
  | false => rfl
  | true => cases h : s.edit?.bind k.given <;> simp [h]

/-- A number of rows in a built query is the one that was accepted last. -/
theorem CountClause.lastAccepted_of_built {k : CountClause} {steps : List BuildStep} {n : Int64}
    (h : k.of (Query.built steps) = some n) : k.lastAccepted steps = some n.toInt := by
  induction steps using List.reverseRecOn with
  | nil => cases k <;> cases h
  | append_singleton steps s ih =>
      rw [Query.built_append_singleton, BuildStep.applyOrKeep] at h
      rw [lastAccepted_append_singleton]
      cases hs : s.apply (Query.built steps) with
      | error cause =>
          rw [hs] at h
          simpa [Except.toBool] using ih h
      | ok changed =>
          rw [hs] at h
          rcases given_of_step hs h with hgiven | ⟨hnone, hbefore⟩
          · simp [Except.toBool, hgiven]
          · simpa [Except.toBool, hnone] using ih hbefore

/-- What is built keeps to the rules, with the queries nested in it, and counts the rows that were
asked for last. A step is refused for the causes of its edit only, by every query alike, and with
a validation error. -/
theorem Query.sound_built {steps : List BuildStep}
    (hrows : ∀ step ∈ steps, ∀ e ∈ step.edit?, ∀ row ∈ e.rows, row.Built)
    (hsubqueries : ∀ step ∈ steps, ∀ e ∈ step.edit?, ∀ r ∈ e.subqueries, r.Built) :
    (built steps).Sound ∧
    (∀ (k : CountClause) (n : Int64), k.of (built steps) = some n →
      k.lastAccepted steps = some n.toInt) ∧
    ∀ (q : Query) (step : BuildStep) (cause : QueryError),
      (step.apply q = .error cause ↔ ∃ e ∈ step.edit?, e.Refused cause) ∧
      (step.apply q = .error cause → ∃ text, cause = .validation text) := by
  refine ⟨(Built.steps steps hrows hsubqueries).sound,
    fun k n => CountClause.lastAccepted_of_built, fun q step cause => ?_⟩
  refine ⟨BuildStep.apply_eq_error, fun h => ?_⟩
  obtain ⟨e, -, hrefused⟩ := BuildStep.apply_eq_error.mp h
  exact hrefused.validation

/-- A row that names a column twice, a limit that is refused after one that is not, and a condition
on a query that is built itself. -/
theorem Query.sound_built_insert :
    (built [.create (.insert [.ofList [("id", .int 1), ("id", .int 2)]] .insert),
      .edit (.limit 5), .edit (.limit (-1)),
      .edit (.filter [.spec "id__in" (.subquery (built [.edit (.limit 3)]))])]).Sound := by
  have hinner : (built [.edit (.limit 3)]).Built :=
    .steps _ (by simp [BuildStep.edit?, Edit.rows]) (by simp [BuildStep.edit?, Edit.subqueries])
  refine (sound_built ?_ ?_).1
  · simpa [BuildStep.edit?, Edit.rows] using Row.built_ofList _
  · simpa [BuildStep.edit?, Edit.subqueries, Condition.allSubqueries, Condition.subqueries,
      Operand.subqueries] using hinner

end BoundSql

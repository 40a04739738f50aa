import BoundSql.Proofs.Lowering.Decision

/-! # The queries that compile

A query compiles in a dialect exactly if it is well formed there. What makes it so is read off
the query alone, without scopes or aliases. -/

namespace BoundSql

open Statement

variable {v : Vocabulary} {s : Scope}

/-! ## Well-formed queries -/

/-- The dialect has a word. -/
def Spelled (word : Except LookupError String) : Prop :=
  ∃ text, word = .ok text

mutual

/-- The dialect has the functions of a field, those in their arguments among them. -/
def Field.Spelled (v : Vocabulary) : Field → Prop
  | .named _ => True
  | .function name args => BoundSql.Spelled (v.function name) ∧ Field.AllSpelled v args
  | .raw _ => True

def Field.AllSpelled (v : Vocabulary) : List Field → Prop
  | [] => True
  | f :: rest => Field.Spelled v f ∧ Field.AllSpelled v rest

end

/-- The dialect has the kind of join, if there is one. -/
def Join.Spelled (v : Vocabulary) (join : Option Join) : Prop :=
  ∀ j ∈ join, BoundSql.Spelled (v.joinKind j.kind)

namespace Row

/-- A row with as many entries as another, and with the same columns. -/
structure Matches (row first : Row) : Prop where
  size_eq : row.size = first.size
  no_other : row.columns ⊆ first.columns
  no_fewer : first.columns ⊆ row.columns

/-- Rows to insert: there is one, it is not empty, and every row matches it. -/
def Tabular : List Row → Prop
  | [] => False
  | first :: rest => first.entries ≠ [] ∧ ∀ row ∈ first :: rest, row.Matches first

end Row

/-- The verb has what it needs, and the dialect has its words. An insert ignores the join. -/
def Action.WellFormed (v : Vocabulary) (join : Option Join) : Action → Prop
  | .select selected => selected ≠ [] ∧ Field.AllSpelled v selected ∧ Join.Spelled v join
  | .update assignments => assignments.entries ≠ [] ∧ Join.Spelled v join
  | .insert rows mode => Row.Tabular rows ∧ Spelled (v.insertMode mode)
  | .delete => Join.Spelled v join

mutual

/-- Lists are not empty, and nested queries are well formed. -/
def Operand.WellFormed (v : Vocabulary) : Operand → Prop
  | .literal _ => True
  | .list values => values ≠ []
  | .null => True
  | .subquery q => Query.WellFormed v q
termination_by structural x => x

/-- Groups are not empty, specifiers can be read, and the dialect has every operator and every
function. -/
def Condition.WellFormed (v : Vocabulary) : Condition → Prop
  | .compare f op x => Spelled (v.operator op) ∧ f.Spelled v ∧ Operand.WellFormed v x
  | .spec spec x =>
    (∃ f op, Specifier.parse? spec.toList = some (f, op) ∧ Spelled (v.operator op) ∧
      f.Spelled v) ∧ Operand.WellFormed v x
  | .group _ conditions => conditions ≠ [] ∧ Condition.AllWellFormed v conditions
termination_by structural x => x

def Condition.AllWellFormed (v : Vocabulary) : List Condition → Prop
  | [] => True
  | c :: rest => Condition.WellFormed v c ∧ Condition.AllWellFormed v rest
termination_by structural x => x

def Condition.OptionWellFormed (v : Vocabulary) : Option Condition → Prop
  | none => True
  | some c => Condition.WellFormed v c
termination_by structural x => x

/-- A query with a table and a verb, only an insert having an upsert, whose clauses are well
formed. -/
def Query.WellFormed (v : Vocabulary) : Query → Prop
  | ⟨action, table, join, filter, having, orderBy, groupBy, _, _, upsert⟩ =>
    table ≠ none ∧
    (∃ a, action = some a ∧ (upsert ≠ none → a.isInsert = true) ∧ a.WellFormed v join) ∧
    Condition.OptionWellFormed v filter ∧
    Field.AllSpelled v groupBy ∧
    Condition.OptionWellFormed v having ∧
    Field.AllSpelled v (orderBy.map OrderBy.field)
termination_by structural x => x

end

mutual

/-- A query below the right side of a comparison has no table. -/
def Operand.LacksTable : Operand → Prop
  | .literal _ => False
  | .list _ => False
  | .null => False
  | .subquery q => Query.LacksTable q
termination_by structural x => x

def Condition.LacksTable : Condition → Prop
  | .compare _ _ x => Operand.LacksTable x
  | .spec _ x => Operand.LacksTable x
  | .group _ conditions => Condition.SomeLacksTable conditions
termination_by structural x => x

def Condition.SomeLacksTable : List Condition → Prop
  | [] => False
  | c :: rest => Condition.LacksTable c ∨ Condition.SomeLacksTable rest
termination_by structural x => x

def Condition.OptionLacksTable : Option Condition → Prop
  | none => False
  | some c => Condition.LacksTable c
termination_by structural x => x

/-- The query, or one nested in its conditions, has no table. -/
def Query.LacksTable : Query → Prop
  | ⟨_, table, _, filter, having, _, _, _, _, _⟩ =>
    table = none ∨ Condition.OptionLacksTable filter ∨ Condition.OptionLacksTable having
termination_by structural x => x

end

/-! ## Clauses without conditions -/

/-- The query is not a statement. -/
def QueryError.IsInvalid (e : QueryError) : Prop :=
  ∃ text, e = .invalid text

namespace Statement

theorem lookup_decided (word : Except LookupError String) :
    Decided (Spelled word) QueryError.IsInvalid (lookup word) := by
  cases word with
  | error e => exact .of_error (by simp [Spelled]) ⟨_, rfl⟩
  | ok text => exact ⟨text, rfl⟩

mutual

theorem field_decided : (f : Field) →
    Decided (f.Spelled v) QueryError.IsInvalid (field v s f)
  | .named _ => .ok _
  | .function name args => by
      rw [field]
      exact (lookup_decided _).bind fun _ _ => (fields_decided args).bind_pure _
  | .raw _ => .ok _

theorem fields_decided : (fs : List Field) →
    Decided (Field.AllSpelled v fs) QueryError.IsInvalid (fields v s fs)
  | [] => .ok _
  | f :: rest => by
      rw [fields]
      exact (field_decided f).bind fun _ _ => (fields_decided rest).bind_pure _

end

theorem groupByClause_decided (groupBy : List Field) :
    Decided (Field.AllSpelled v groupBy) QueryError.IsInvalid (groupByClause v s groupBy) := by
  cases groupBy with
  | nil => exact .ok _
  | cons f rest => exact (fields_decided (f :: rest)).bind_pure _

theorem ordering_decided (entry : OrderBy) :
    Decided (entry.field.Spelled v) QueryError.IsInvalid (ordering v s entry) := by
  rw [ordering]
  cases entry.direction with
  | none => exact (field_decided entry.field).bind_pure _
  | some direction => exact (field_decided entry.field).bind_pure _

theorem orderings_decided (orderBy : List OrderBy) :
    Decided (Field.AllSpelled v (orderBy.map OrderBy.field)) QueryError.IsInvalid
      (orderings v s orderBy) := by
  induction orderBy with
  | nil => exact .ok _
  | cons entry rest ih => exact (ordering_decided entry).bind fun _ _ => ih.bind_pure _

theorem orderByClause_decided (orderBy : List OrderBy) :
    Decided (Field.AllSpelled v (orderBy.map OrderBy.field)) QueryError.IsInvalid
      (orderByClause v s orderBy) := by
  cases orderBy with
  | nil => exact .ok _
  | cons entry rest => exact (orderings_decided (entry :: rest)).bind_pure _

/-- Only the kind of the join is looked up. -/
theorem joinClause_decided :
    Decided (Join.Spelled v (s.join.map Prod.fst)) QueryError.IsInvalid (joinClause v s) := by
  unfold joinClause
  cases s.join with
  | none => exact fun j hj => nomatch hj
  | some entry =>
      obtain ⟨join, joinAlias⟩ := entry
      refine ((lookup_decided _).bind_pure _).congr ?_
      simp [Join.Spelled]

end Statement

/-! ## Inserted rows -/

namespace Row

theorem isEmpty_iff {row : Row} : row.isEmpty = true ↔ row.entries = [] :=
  List.isEmpty_iff

theorem contains_iff {row : Row} {column : String} :
    row.contains column = true ↔ column ∈ row.columns := by
  simp [contains, get?, columns]

theorem sameColumns_iff {row first : Row} :
    row.sameColumns first = true ↔ row.size = first.size ∧ row.columns ⊆ first.columns := by
  simp [sameColumns, contains_iff, List.subset_def]

/-- The two checks on a row, one before the cells are written and one on writing them, amount to
the row matching the first. -/
theorem matches_iff {row first : Row} :
    row.Matches first ↔
      row.sameColumns first = true ∧ ∀ column ∈ first.columns, row.contains column = true := by
  simp only [sameColumns_iff, contains_iff]
  constructor
  · rintro ⟨hsize, hother, hfewer⟩
    exact ⟨⟨hsize, hother⟩, fun column hcolumn => hfewer hcolumn⟩
  · rintro ⟨⟨hsize, hother⟩, hfewer⟩
    exact ⟨hsize, hother, fun column hcolumn => hfewer column hcolumn⟩

end Row

namespace Statement

theorem cells_decided (row : Row) (columns : List String) :
    Decided (∀ column ∈ columns, row.contains column = true) QueryError.IsInvalid
      (cells row columns) := by
  induction columns with
  | nil => exact (Decided.ok _).congr (by simp)
  | cons column rest ih =>
      rw [cells]
      cases hget : row.get? column with
      | none => exact .of_error (by simp [Row.contains, hget]) ⟨_, rfl⟩
      | some value =>
          refine (ih.bind_pure _).congr ?_
          simp [Row.contains, hget]

theorem tuples_decided (columns : List String) (rows : List Row) :
    Decided (∀ row ∈ rows, ∀ column ∈ columns, row.contains column = true) QueryError.IsInvalid
      (tuples columns rows) := by
  induction rows with
  | nil => exact (Decided.ok _).congr (by simp)
  | cons row rest ih =>
      refine ((cells_decided row columns).bind fun _ _ => ih.bind_pure _).congr ?_
      rw [List.forall_mem_cons]

theorem insertClause_decided (rows : List Row) (mode : InsertMode) (upsert : Option Upsert) :
    Decided (Row.Tabular rows ∧ Spelled (v.insertMode mode)) QueryError.IsInvalid
      (insertClause v s rows mode upsert) := by
  cases rows with
  | nil => exact .of_error (fun h => h.1) ⟨_, rfl⟩
  | cons first rest =>
      by_cases hempty : first.isEmpty = true
      · rw [insertClause, if_pos hempty]
        exact .of_error (fun h => h.1.1 (Row.isEmpty_iff.mp hempty)) ⟨_, rfl⟩
      · have hcons : first.entries ≠ [] := mt Row.isEmpty_iff.mpr hempty
        rw [insertClause, if_neg hempty]
        cases hmatch : (first :: rest).findIdx? fun row => !row.sameColumns first with
        | some index =>
            refine .of_error (fun h => ?_) ⟨_, rfl⟩
            have hsame : ∀ row ∈ first :: rest, row.sameColumns first = true :=
              fun row hrow => (Row.matches_iff.mp (h.1.2 row hrow)).1
            simp [findIdx?_differs_eq_none.mpr hsame] at hmatch
        | none =>
            have hsame := findIdx?_differs_eq_none.mp hmatch
            refine ((lookup_decided (v.insertMode mode)).bind fun _ _ =>
              (tuples_decided first.columns (first :: rest)).bind_pure _).congr ?_
            constructor
            · rintro ⟨hword, hcells⟩
              exact ⟨⟨hcons, fun row hrow =>
                Row.matches_iff.mpr ⟨hsame row hrow, hcells row hrow⟩⟩, hword⟩
            · rintro ⟨⟨-, hmatches⟩, hword⟩
              exact ⟨hword, fun row hrow => (Row.matches_iff.mp (hmatches row hrow)).2⟩

/-! ## Verbs -/

theorem selectClause_decided (selected : List Field) :
    Decided (selected ≠ [] ∧ Field.AllSpelled v selected ∧ Join.Spelled v (s.join.map Prod.fst))
      QueryError.IsInvalid (selectClause v s selected) := by
  cases selected with
  | nil => exact .of_error (fun h => h.1 rfl) ⟨_, rfl⟩
  | cons f rest =>
      refine ((fields_decided (f :: rest)).bind fun _ _ => joinClause_decided.bind_pure _).congr ?_
      simp

theorem updateClause_decided (assignments : Row) :
    Decided (assignments.entries ≠ [] ∧ Join.Spelled v (s.join.map Prod.fst))
      QueryError.IsInvalid (updateClause v s assignments) := by
  by_cases hempty : assignments.isEmpty = true
  · rw [updateClause, if_pos hempty]
    exact .of_error (fun h => h.1 (Row.isEmpty_iff.mp hempty)) ⟨_, rfl⟩
  · have hcons : assignments.entries ≠ [] := mt Row.isEmpty_iff.mpr hempty
    rw [updateClause, if_neg hempty]
    exact (joinClause_decided.bind_pure _).congr (by simp [hcons])

theorem deleteClause_decided :
    Decided (Join.Spelled v (s.join.map Prod.fst)) QueryError.IsInvalid (deleteClause v s) :=
  joinClause_decided.bind_pure _

theorem verbClause_decided (action : Option Action) (upsert : Option Upsert) :
    Decided
      (∃ a, action = some a ∧ (upsert ≠ none → a.isInsert = true) ∧
        a.WellFormed v (s.join.map Prod.fst))
      QueryError.IsInvalid (verbClause v s action upsert) := by
  cases action with
  | none => exact .of_error (by simp) ⟨_, rfl⟩
  | some a =>
      have hclause : Decided (a.WellFormed v (s.join.map Prod.fst)) QueryError.IsInvalid
          (actionClause v s upsert a) := by
        cases a with
        | select selected => exact selectClause_decided selected
        | update assignments => exact updateClause_decided assignments
        | insert rows mode => exact insertClause_decided rows mode upsert
        | delete => exact deleteClause_decided
      rw [verbClause_some]
      by_cases hupsert : (upsert.isSome && !a.isInsert) = true
      · rw [if_pos hupsert]
        refine .of_error ?_ ⟨_, rfl⟩
        rintro ⟨_, ⟨rfl⟩, hinsert, -⟩
        simp_all [Option.isSome_iff_ne_none]
      · rw [if_neg hupsert]
        refine hclause.congr ?_
        simp_all [Option.isSome_iff_ne_none]

end Statement

/-! ## Conditions and queries -/

/-- The kind of error a compile ends with: something that must be set is not, which means a
table, or the query is not a statement. -/
def QueryError.OfCompile (lacksTable : Prop) (e : QueryError) : Prop :=
  (∃ text, e = .config text) ∧ lacksTable ∨ e.IsInvalid

namespace Compile

variable {lacks : Prop}

/-- A part of a statement that draws no aliases does not look for a table. -/
theorem lift_decides {α : Type} {p : Prop} {result : Except QueryError α}
    (h : Decided p QueryError.IsInvalid result) :
    Decides p (QueryError.OfCompile lacks) (lift result) :=
  .lift (h.mono .inr)

theorem enter_decides (table : Option Table) (join : Option Join) :
    Decides (table ≠ none) (QueryError.OfCompile (table = none)) (enter table join) := by
  intro supply
  rw [runFrom_enter]
  cases table with
  | none => exact .of_error (fun h => h rfl) (.inl ⟨⟨_, rfl⟩, rfl⟩)
  | some table => cases join <;> exact nofun

/-- The scope of a statement has its join. -/
theorem join_of_enter {table : Option Table} {join : Option Join}
    {supply after : AliasSupply} (h : (enter table join).runFrom supply = (.ok s, after)) :
    s.join.map Prod.fst = join := by
  have henter := enter_ok.mp h
  cases table with
  | none => cases henter
  | some table => cases join <;> cases henter <;> rfl

theorem comparison_decides {f : Field} {op : Operator} {x : Compile (List Piece)} {p : Prop}
    (h : Decides p (QueryError.OfCompile lacks) x) :
    Decides (Spelled (v.operator op) ∧ f.Spelled v ∧ p) (QueryError.OfCompile lacks)
      (comparison v s f op x) :=
  (lift_decides (lookup_decided _)).bind fun _ _ _ _ =>
    (lift_decides (field_decided f)).bind fun _ _ _ _ => h.bind_pure _

/-- What a part of the tree lacks, the whole tree lacks. -/
theorem Decides.weaken {α : Type} {p less more : Prop} {x : Compile α}
    (h : Decides p (QueryError.OfCompile less) x) (hmore : less → more) :
    Decides p (QueryError.OfCompile more) x :=
  h.mono fun he => he.imp_left (And.imp_right hmore)

mutual

theorem operand_decides : (x : Operand) →
    Decides (x.WellFormed v) (QueryError.OfCompile x.LacksTable) (operand v x)
  | .literal value => .pure _
  | .list values => by
      cases values with
      | nil => exact .throw (fun h => h rfl) (.inr ⟨_, rfl⟩)
      | cons value rest => exact (Decides.pure _).congr (by simp [Operand.WellFormed])
  | .null => .pure _
  | .subquery q => (query_decides q).bind_pure _
termination_by structural x => x

theorem condition_decides : (c : Condition) → {s : Scope} →
    Decides (c.WellFormed v) (QueryError.OfCompile c.LacksTable) (condition v s c)
  | .compare _ _ x, _ => comparison_decides (operand_decides x)
  | .spec spec x, s => by
      have hoperand := operand_decides x
      cases hparse : Specifier.parse? spec.toList with
      | none =>
          have hcondition : condition v s (.spec spec x) = throw (.malformedSpecifier spec) := by
            rw [condition, Specifier.parse, hparse]
            rfl
          rw [hcondition]
          exact .throw (by simp [Condition.WellFormed, hparse]) (.inr ⟨_, rfl⟩)
      | some found =>
          obtain ⟨f, op⟩ := found
          have hcondition : condition v s (.spec spec x) = comparison v s f op (operand v x) := by
            rw [condition, Specifier.parse, hparse]
            rfl
          rw [hcondition]
          exact (comparison_decides hoperand).congr
            (by simp [Condition.WellFormed, hparse, and_assoc])
  | .group _ conditions, _ => by
      cases conditions with
      | nil => exact .throw (fun h => h.1 rfl) (.inr ⟨_, rfl⟩)
      | cons c rest =>
          refine ((children_decides (c :: rest)).bind_pure _).congr ?_
          simp [Condition.WellFormed]
termination_by structural x => x

theorem children_decides : (conditions : List Condition) → {s : Scope} →
    Decides (Condition.AllWellFormed v conditions)
      (QueryError.OfCompile (Condition.SomeLacksTable conditions)) (children v s conditions)
  | [], _ => .pure _
  | c :: rest, _ =>
      ((condition_decides c).weaken .inl).bind fun _ _ _ _ =>
        ((children_decides rest).weaken .inr).bind_pure _
termination_by structural x => x

theorem conditionClause_decides : (clause : Option Condition) → {s : Scope} → {word : String} →
    Decides (Condition.OptionWellFormed v clause)
      (QueryError.OfCompile (Condition.OptionLacksTable clause))
      (conditionClause v s word clause)
  | none, _, _ => .pure _
  | some c, _, _ => (condition_decides c).bind_pure _
termination_by structural x => x

theorem query_decides : (q : Query) →
    Decides (q.WellFormed v) (QueryError.OfCompile q.LacksTable) (query v q)
  | ⟨action, table, join, filter, having, orderBy, groupBy, limit, offset, upsert⟩ => by
      refine ((enter_decides table join).weaken .inl).bind ?_
      intro s supply entered henter
      obtain rfl := join_of_enter henter
      refine (lift_decides (verbClause_decided action upsert)).bind fun _ _ _ _ => ?_
      refine ((conditionClause_decides filter).weaken (.inr ∘ .inl)).bind fun _ _ _ _ => ?_
      refine (lift_decides (groupByClause_decided groupBy)).bind fun _ _ _ _ => ?_
      refine ((conditionClause_decides having).weaken (.inr ∘ .inr)).bind fun _ _ _ _ => ?_
      exact (lift_decides (orderByClause_decided orderBy)).bind_pure _
termination_by structural x => x

end

end Compile

/-- A query has a text in a dialect exactly if it is well formed there. Otherwise something that
must be set is not, and then a query of the tree has no table, or the query is not a
statement. -/
theorem Query.toSql_ok_iff_wellFormed (d : Dialect) (q : Query) :
    ((∃ result, q.toSql d = .ok result) ↔ q.WellFormed d.toVocabulary) ∧
      ∀ e, q.toSql d = .error e →
        (∃ text, e = .config text) ∧ q.LacksTable ∨ ∃ text, e = .invalid text := by
  have hquery : Decided (q.WellFormed d.toVocabulary) (QueryError.OfCompile q.LacksTable)
      (q.toSql d) := by
    have hlower : Compile.Decides (q.WellFormed d.toVocabulary)
        (QueryError.OfCompile q.LacksTable) (Compile.query d.toVocabulary q) :=
      Compile.query_decides q
    unfold Query.toSql Query.compile Query.lower
    exact ((hlower {}).map _).map _
  exact ⟨hquery.exists_ok_iff, fun e he => hquery.of_eq_error he⟩

end BoundSql

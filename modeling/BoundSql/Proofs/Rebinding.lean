import BoundSql.Proofs.Binding
import BoundSql.Proofs.Lowering.Parametric

/-! # Queries with other values

Two queries that differ only in the values they bind are the same statement: they compile to the
same tokens and draw the same aliases, or they fail with the same error. -/

namespace BoundSql

/-! ## Other values at the same places -/

/-- The row with a function applied to every value. -/
def Row.mapValues (f : Value → Value) (row : Row) : Row :=
  ⟨row.entries.map fun (column, value) => (column, f value)⟩

/-- The action with a function applied to every value. -/
def Action.mapValues (f : Value → Value) : Action → Action
  | select fields => select fields
  | update assignments => update (assignments.mapValues f)
  | insert rows mode => insert (rows.map (Row.mapValues f)) mode
  | delete => delete

/-- The upsert with a function applied to every value. -/
def Upsert.mapValues (f : Value → Value) : Upsert → Upsert
  | proposed => proposed
  | assign assignments => assign (assignments.mapValues f)

mutual

/-- The second operand is the first with `f` applied to its values. -/
def Operand.Rebinds (f : Value → Value) : Operand → Operand → Prop
  | .literal value, y => y = .literal (f value)
  | .list values, y => y = .list (values.map f)
  | .null, y => y = .null
  | .subquery q, .subquery q' => Query.Rebinds f q q'
  | .subquery _, _ => False
termination_by structural x => x

/-- The second condition is the first with `f` applied to its values. -/
def Condition.Rebinds (f : Value → Value) : Condition → Condition → Prop
  | .compare field op x, .compare field' op' y => field' = field ∧ op' = op ∧ Operand.Rebinds f x y
  | .spec spec x, .spec spec' y => spec' = spec ∧ Operand.Rebinds f x y
  | .group op conditions, .group op' conditions' =>
    op' = op ∧ Condition.AllRebind f conditions conditions'
  | _, _ => False
termination_by structural x => x

def Condition.AllRebind (f : Value → Value) : List Condition → List Condition → Prop
  | [], conditions => conditions = []
  | c :: rest, c' :: rest' => Condition.Rebinds f c c' ∧ Condition.AllRebind f rest rest'
  | _ :: _, [] => False
termination_by structural x => x

def Condition.OptionRebinds (f : Value → Value) : Option Condition → Option Condition → Prop
  | none, c => c = none
  | some c, some c' => Condition.Rebinds f c c'
  | some _, none => False
termination_by structural x => x

/-- The second query is the first with `f` applied to every value, and with any numbers in the
place of its limit and its offset. -/
def Query.Rebinds (f : Value → Value) : Query → Query → Prop
  | ⟨action, table, join, filter, having, orderBy, groupBy, limit, offset, upsert⟩, q =>
    q.action = action.map (Action.mapValues f) ∧ q.table = table ∧ q.join = join ∧
      Condition.OptionRebinds f filter q.filter ∧ Condition.OptionRebinds f having q.having ∧
      q.orderBy = orderBy ∧ q.groupBy = groupBy ∧ q.limit.isSome = limit.isSome ∧
      q.offset.isSome = offset.isSome ∧ q.upsert = upsert.map (Upsert.mapValues f)
termination_by structural x => x

end

/-- The second binding is the first with `f` applied to its value, or any number of rows where the
first is one. -/
def Binding.Rebinds (f : Value → Value) : Binding → Binding → Prop
  | value v, value w => w = f v
  | count _, count _ => True
  | _, _ => False

/-! ## Rows with other values -/

namespace Row

variable (f : Value → Value) (row : Row)

@[simp] theorem mapValues_columns : (row.mapValues f).columns = row.columns := by
  simp [columns, mapValues, Function.comp_def]

@[simp] theorem mapValues_values : (row.mapValues f).values = row.values.map f := by
  simp [values, mapValues, Function.comp_def]

@[simp] theorem mapValues_get? (column : String) :
    (row.mapValues f).get? column = (row.get? column).map f := by
  obtain ⟨entries⟩ := row
  simp only [get?, mapValues, List.find?_map, Option.map_map]
  rfl

@[simp] theorem mapValues_cells (columns : List String) :
    (row.mapValues f).cells columns = (row.cells columns).map f := by
  have hget : (row.mapValues f).get? = fun column => (row.get? column).map f := by
    funext column
    exact mapValues_get? f row column
  rw [cells, cells, hget, List.map_filterMap]

end Row

theorem insertedCells_mapValues (f : Value → Value) (rows : List Row) :
    insertedCells (rows.map (Row.mapValues f)) = (insertedCells rows).map f := by
  cases rows with
  | nil => rfl
  | cons first rest =>
      simp only [List.map_cons, insertedCells, Row.mapValues_columns, List.flatMap_cons,
        List.flatMap_map, Row.mapValues_cells, List.map_append, List.map_flatMap]

theorem Upsert.values_mapValues (f : Value → Value) (upsert : Option Upsert) :
    Upsert.values (upsert.map (Upsert.mapValues f)) = (Upsert.values upsert).map f := by
  rcases upsert with _ | _ | assignments
  · rfl
  · rfl
  · exact Row.mapValues_values f assignments

theorem Action.values_mapValues (f : Value → Value) (action : Option Action)
    (upsert : Option Upsert) :
    Action.values (action.map (Action.mapValues f)) (upsert.map (Upsert.mapValues f)) =
      (Action.values action upsert).map f := by
  rcases action with _ | _ | assignments | ⟨rows, mode⟩ | _
  · rfl
  · rfl
  · exact Row.mapValues_values f assignments
  · simp only [Option.map_some, mapValues, values, insertedCells_mapValues,
      Upsert.values_mapValues, List.map_append]
  · rfl

/-! ## The same tokens -/

/-- The second compile may bind any values. -/
def Likeness.anyValues : Likeness :=
  { Likeness.same with values := fun _ _ => True }

/-- A dialect writes the same tokens whatever values are bound. -/
theorem Piece.Alike.tokens_eq {pieces other : List Piece} (h : Piece.Alike .anyValues pieces other)
    (d : Dialect) : tokens d other = tokens d pieces := by
  induction h with
  | nil => rfl
  | word h | call h | target h => cases h; rfl
  | source t h => cases h; rfl
  | column h own => cases h; rfl
  | slot h | table t | name own | proposed own => rfl
  | nested h ih => simp [ih]
  | append hleft hright ihLeft ihRight => rw [tokens_append, tokens_append, ihLeft, ihRight]

section

variable {f : Value → Value}

theorem Row.alike_mapValues (row : Row) :
    row.Alike Likeness.anyValues.values (row.mapValues f) :=
  List.forall₂_map_right_iff.mpr (List.forall₂_same.mpr fun _ _ => ⟨rfl, trivial⟩)

theorem Action.alike_mapValues (action : Option Action) :
    Option.Rel (Action.Alike Likeness.anyValues.values) action (action.map (mapValues f)) := by
  rcases action with _ | _ | row | ⟨rows, mode⟩ | _
  · exact .none
  · exact .some (.select _)
  · exact .some (.update row.alike_mapValues)
  · refine .some (.insert (List.forall₂_map_right_iff.mpr ?_) mode)
    exact List.forall₂_same.mpr fun row _ => row.alike_mapValues
  · exact .some .delete

theorem Upsert.alike_mapValues (upsert : Option Upsert) :
    Option.Rel (Upsert.Alike Likeness.anyValues.values) upsert (upsert.map (mapValues f)) := by
  rcases upsert with _ | _ | row
  · exact .none
  · exact .some .proposed
  · exact .some (.assign row.alike_mapValues)

theorem countsAlike_of_isSome {n m : Option Int64} (h : m.isSome = n.isSome) :
    CountsAlike Likeness.anyValues.values n m := by
  cases n with
  | none =>
      cases m with
      | none => exact .none
      | some m => cases h
  | some n =>
      cases m with
      | none => cases h
      | some m => exact .some trivial

mutual

theorem Operand.Rebinds.alike : (x : Operand) → {y : Operand} → Operand.Rebinds f x y →
    x.Alike Likeness.anyValues.values y
  | .literal value, y, h => by
      cases h
      exact .literal trivial
  | .list values, y, h => by
      cases h
      exact .list (List.forall₂_map_right_iff.mpr (List.forall₂_same.mpr fun _ _ => trivial))
  | .null, y, h => by
      cases h
      exact .null
  | .subquery q, .subquery q', h => .subquery (Query.Rebinds.alike q h)
  | .subquery _, .literal _, h | .subquery _, .list _, h | .subquery _, .null, h => h.elim
termination_by structural x => x

theorem Condition.Rebinds.alike : (c : Condition) → {c' : Condition} → Condition.Rebinds f c c' →
    c.Alike Likeness.anyValues.values c'
  | .compare field op x, .compare field' op' y, h => by
      obtain ⟨rfl, rfl, hx⟩ := h
      exact .compare field' op' (Operand.Rebinds.alike x hx)
  | .spec spec x, .spec spec' y, h => by
      obtain ⟨rfl, hx⟩ := h
      exact .spec spec' (Operand.Rebinds.alike x hx)
  | .group op conditions, .group op' others, h => by
      obtain ⟨rfl, hall⟩ := h
      exact .group op' (Condition.AllRebind.alike conditions hall)
  | .compare .., .spec .., h | .compare .., .group .., h | .spec .., .compare .., h
  | .spec .., .group .., h | .group .., .compare .., h | .group .., .spec .., h => h.elim
termination_by structural c => c

theorem Condition.AllRebind.alike : (conditions : List Condition) → {others : List Condition} →
    Condition.AllRebind f conditions others →
    Condition.AllAlike Likeness.anyValues.values conditions others
  | [], others, h => by
      cases h
      exact .nil
  | c :: rest, c' :: rest', h =>
      .cons (Condition.Rebinds.alike c h.1) (Condition.AllRebind.alike rest h.2)
  | _ :: _, [], h => h.elim
termination_by structural conditions => conditions

theorem Condition.OptionRebinds.alike : (c : Option Condition) → {c' : Option Condition} →
    Condition.OptionRebinds f c c' → Condition.OptionAlike Likeness.anyValues.values c c'
  | none, c', h => by
      cases h
      exact .none
  | some c, some c', h => .some (Condition.Rebinds.alike c h)
  | some _, none, h => h.elim
termination_by structural c => c

/-- A query with other values is the same but for its values. -/
theorem Query.Rebinds.alike : (q : Query) → {q' : Query} → Query.Rebinds f q q' →
    q.Alike Likeness.anyValues.values q'
  | ⟨action, table, join, filter, having, orderBy, groupBy, limit, offset, upsert⟩,
    ⟨action', table', join', filter', having', orderBy', groupBy', limit', offset', upsert'⟩,
    h => by
      obtain ⟨rfl, rfl, rfl, hfilter, hhaving, rfl, rfl, hlimit, hoffset, rfl⟩ := h
      exact .mk table' join' orderBy' groupBy' (Action.alike_mapValues action)
        (Condition.OptionRebinds.alike filter hfilter)
        (Condition.OptionRebinds.alike having hhaving) (countsAlike_of_isSome hlimit)
        (countsAlike_of_isSome hoffset) (Upsert.alike_mapValues upsert)
termination_by structural q => q

end

end

/-! ## The same bindings, with other values -/

theorem Binding.rebinds_values (f : Value → Value) (values : List Value) :
    List.Forall₂ (Binding.Rebinds f) (values.map .value) ((values.map f).map .value) := by
  induction values with
  | nil => exact .nil
  | cons value rest ih => exact .cons rfl ih

theorem Binding.rebinds_counts (f : Value → Value) {n m : Option Int64}
    (h : m.isSome = n.isSome) :
    List.Forall₂ (Binding.Rebinds f) (n.map Binding.count).toList
      (m.map Binding.count).toList := by
  cases n with
  | none =>
      cases m with
      | none => exact .nil
      | some m => cases h
  | some n =>
      cases m with
      | none => cases h
      | some m => exact .cons trivial .nil

section

variable {f : Value → Value}

mutual

theorem Operand.Rebinds.bindings : (x : Operand) → {y : Operand} → Operand.Rebinds f x y →
    List.Forall₂ (Binding.Rebinds f) x.bindings y.bindings
  | .literal value, y, h => by
      cases h
      exact Binding.rebinds_values f [value]
  | .list values, y, h => by
      cases h
      exact Binding.rebinds_values f values
  | .null, y, h => by
      cases h
      exact .nil
  | .subquery q, .subquery q', h => Query.Rebinds.bindings q h
  | .subquery _, .literal _, h | .subquery _, .list _, h | .subquery _, .null, h => h.elim
termination_by structural x => x

theorem Condition.Rebinds.bindings : (c : Condition) → {c' : Condition} →
    Condition.Rebinds f c c' → List.Forall₂ (Binding.Rebinds f) c.bindings c'.bindings
  | .compare _ _ x, .compare .., h => Operand.Rebinds.bindings x h.2.2
  | .spec _ x, .spec .., h => Operand.Rebinds.bindings x h.2
  | .group _ conditions, .group .., h => Condition.AllRebind.bindings conditions h.2
  | .compare .., .spec .., h | .compare .., .group .., h | .spec .., .compare .., h
  | .spec .., .group .., h | .group .., .compare .., h | .group .., .spec .., h => h.elim
termination_by structural x => x

theorem Condition.AllRebind.bindings : (conditions : List Condition) →
    {conditions' : List Condition} → Condition.AllRebind f conditions conditions' →
    List.Forall₂ (Binding.Rebinds f) (Condition.allBindings conditions)
      (Condition.allBindings conditions')
  | [], conditions', h => by
      cases h
      exact .nil
  | c :: rest, c' :: rest', h =>
      List.rel_append (Condition.Rebinds.bindings c h.1) (Condition.AllRebind.bindings rest h.2)
  | _ :: _, [], h => h.elim
termination_by structural x => x

theorem Condition.OptionRebinds.bindings : (c : Option Condition) → {c' : Option Condition} →
    Condition.OptionRebinds f c c' →
    List.Forall₂ (Binding.Rebinds f) (Condition.optionBindings c) (Condition.optionBindings c')
  | none, c', h => by
      cases h
      exact .nil
  | some c, some c', h => Condition.Rebinds.bindings c h
  | some _, none, h => h.elim
termination_by structural x => x

/-- The bindings are those of the first query with `f` applied to the values, and numbers of rows
where that has them. -/
theorem Query.Rebinds.bindings : (q : Query) → {q' : Query} → Query.Rebinds f q q' →
    List.Forall₂ (Binding.Rebinds f) q.bindings q'.bindings
  | ⟨action, table, join, filter, having, orderBy, groupBy, limit, offset, upsert⟩,
    ⟨action', table', join', filter', having', orderBy', groupBy', limit', offset', upsert'⟩,
    h => by
      obtain ⟨rfl, -, -, hfilter, hhaving, -, -, hlimit, hoffset, rfl⟩ := h
      have hverb := Binding.rebinds_values f (Action.values action upsert)
      rw [← Action.values_mapValues] at hverb
      have hwhere := Condition.OptionRebinds.bindings filter hfilter
      have hhaving := Condition.OptionRebinds.bindings having hhaving
      have hoffset := Binding.rebinds_counts f hoffset
      have hlimit := Binding.rebinds_counts f hlimit
      rw [Query.bindings, Query.bindings]
      exact List.rel_append (List.rel_append (List.rel_append (List.rel_append hverb hwhere)
        hhaving) hoffset) hlimit
termination_by structural x => x

end

end

/-! ## Values never reach the text -/

/-- The clauses of a query and of the query with other values: they differ in their arguments
only, and there `f` has been applied at the slots of values, and the slots of numbers hold the
numbers of the query. -/
structure Clause.Rebinds (f : Value → Value) (q q' : Query) (c c' : Clause) : Prop where
  tokens_eq : c'.tokens = c.tokens
  sql_eq : c'.sql = c.sql
  args_eq : c.args = q.bindings.map Binding.arg
  other_args_eq : c'.args = q'.bindings.map Binding.arg
  bindings : List.Forall₂ (Binding.Rebinds f) q.bindings q'.bindings

/-- A query and the query with other values and other numbers of rows both fail with the same
error, or both compile and their clauses differ in their arguments only. Either way the supply of
aliases ends at the same position. -/
theorem Query.compile_rebinds {f : Value → Value} {q q' : Query} (h : Query.Rebinds f q q')
    (d : Dialect) (supply : AliasSupply) :
    (q'.compile d supply).2 = (q.compile d supply).2 ∧
      Agrees (Clause.Rebinds f q q') (q.compile d supply).1 (q'.compile d supply).1 := by
  obtain ⟨hsupply, hpieces⟩ :=
    Compile.query_alike (.refl .anyValues d.toVocabulary) q (Query.Rebinds.alike q h) supply _ rfl
  refine ⟨hsupply.symm, ?_⟩
  change Agrees _ (((Compile.query d.toVocabulary q).runFrom supply).1.map (Clause.ofPieces d))
    (((Compile.query d.toVocabulary q').runFrom supply).1.map (Clause.ofPieces d))
  rcases hq : (Compile.query d.toVocabulary q).runFrom supply with ⟨outcome, after⟩
  rcases hq' : (Compile.query d.toVocabulary q').runFrom supply with ⟨outcome', after'⟩
  rw [hq, hq'] at hpieces
  cases hpieces with
  | error e => exact .error e
  | ok halike =>
      have htokens := halike.tokens_eq d
      refine .ok ?_
      exact {
        tokens_eq := htokens
        sql_eq := congrArg Token.join htokens
        args_eq := Compile.args_query q hq
        other_args_eq := Compile.args_query q' hq'
        bindings := Query.Rebinds.bindings q h }

/-- Finds users by name and by number. -/
def Query.findUsers (name : Value) (ids : List Value) (limit : Int64) : Query where
  table := some ⟨"users", none⟩
  action := some (.select [.named "id"])
  filter := some (.group .or [.spec "name__eq" (.literal name), .spec "id__in" (.list ids)])
  limit := some limit

/-- A null in the place of another value is bound like any other, and not spelled out. -/
theorem Query.compile_rebinds_findUsers :
    Query.Rebinds (fun _ => .null) (findUsers (.string "ann") [.int 1, .int 2] 10)
        (findUsers .null [.null, .null] (-1)) ∧
      Agrees
        (Clause.Rebinds (fun _ => .null) (findUsers (.string "ann") [.int 1, .int 2] 10)
          (findUsers .null [.null, .null] (-1)))
        ((findUsers (.string "ann") [.int 1, .int 2] 10).compile
          ShippedDialect.mysql.dialect {}).1
        ((findUsers .null [.null, .null] (-1)).compile ShippedDialect.mysql.dialect {}).1 := by
  have hrebinds : Query.Rebinds (fun _ => .null) (findUsers (.string "ann") [.int 1, .int 2] 10)
      (findUsers .null [.null, .null] (-1)) := by
    simp [findUsers, Query.Rebinds, Condition.OptionRebinds, Condition.Rebinds,
      Condition.AllRebind, Operand.Rebinds, Action.mapValues]
  exact ⟨hrebinds, (Query.compile_rebinds hrebinds ShippedDialect.mysql.dialect {}).2⟩

end BoundSql

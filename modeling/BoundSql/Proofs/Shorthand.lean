import BoundSql.Dialect.Shipped
import BoundSql.Proofs.Lowering.Compile
import BoundSql.Proofs.Specifiers

/-! # Specifiers as a shorthand

A specifier that is put together from a column, perhaps a function, and the key of an operator
stands for the comparison that these make, wherever in a query the condition is. The names must not
end with an underscore: the separator is found as far left as it can be, so that the underscore
would go to the next part. -/

namespace BoundSql

/-! ## Places of a condition in a query -/

mutual

/-- A condition from which one condition is left out. -/
inductive ConditionHole where
  | here
  | inGroup (op : LogicalOp) (before : List Condition) (hole : ConditionHole)
      (behind : List Condition)
  | inCompare (field : Field) (op : Operator) (hole : QueryHole)
  | inSpec (spec : String) (hole : QueryHole)

/-- A query from which one condition is left out, in the WHERE or the HAVING tree of the query
itself or of a query nested in it. -/
inductive QueryHole where
  | filter (q : Query) (hole : ConditionHole)
  | having (q : Query) (hole : ConditionHole)

end

mutual

/-- The condition with another one in the place that is left out. -/
def ConditionHole.fill (c : Condition) : ConditionHole → Condition
  | .here => c
  | .inGroup op before hole behind => .group op (before ++ hole.fill c :: behind)
  | .inCompare f op hole => .compare f op (.subquery (hole.fill c))
  | .inSpec spec hole => .spec spec (.subquery (hole.fill c))
termination_by structural hole => hole

/-- The query with a condition in the place that is left out. -/
def QueryHole.fill (c : Condition) : QueryHole → Query
  | .filter q hole => { q with filter := some (hole.fill c) }
  | .having q hole => { q with having := some (hole.fill c) }
termination_by structural hole => hole

end

/-- The conditions compile to the same, and brackets are put around both or around none. -/
structure Condition.Equivalent (c other : Condition) : Prop where
  compile_eq : ∀ v s, Compile.condition v s c = Compile.condition v s other
  isGroup_eq : c.isGroup = other.isGroup

namespace Compile

variable {c other : Condition}

theorem children_replace {v : Vocabulary} {s : Scope} (h : c.Equivalent other)
    (before behind : List Condition) :
    children v s (before ++ c :: behind) = children v s (before ++ other :: behind) := by
  induction before with
  | nil => simp only [List.nil_append, children, h.compile_eq, h.isGroup_eq]
  | cons first before ih => simp only [List.cons_append, children, ih]

theorem condition_group_replace {v : Vocabulary} {s : Scope} (h : c.Equivalent other)
    (op : LogicalOp) (before behind : List Condition) :
    condition v s (.group op (before ++ c :: behind)) =
      condition v s (.group op (before ++ other :: behind)) := by
  have hempty : (before ++ c :: behind).isEmpty = (before ++ other :: behind).isEmpty := by
    cases before <;> rfl
  rw [condition, condition, hempty, children_replace h]

mutual

/-- Equivalent conditions can be put for each other, by the depth of the place. -/
theorem fill_equivalent (h : c.Equivalent other) :
    (hole : ConditionHole) → (hole.fill c).Equivalent (hole.fill other)
  | .here => h
  | .inGroup op before hole behind => by
      rw [ConditionHole.fill, ConditionHole.fill]
      exact ⟨fun v s => condition_group_replace (fill_equivalent h hole) op before behind, rfl⟩
  | .inCompare f op hole => by
      rw [ConditionHole.fill, ConditionHole.fill]
      refine ⟨fun v s => ?_, rfl⟩
      rw [condition, condition, operand, operand, query_fill h hole v]
  | .inSpec spec hole => by
      rw [ConditionHole.fill, ConditionHole.fill]
      refine ⟨fun v s => ?_, rfl⟩
      rw [condition, condition, operand, operand, query_fill h hole v]
termination_by structural hole => hole

theorem query_fill (h : c.Equivalent other) :
    (hole : QueryHole) → ∀ v, query v (hole.fill c) = query v (hole.fill other)
  | .filter q hole => by
      intro v
      have hequivalent := fill_equivalent h hole
      simp only [QueryHole.fill, query, conditionClause, hequivalent.compile_eq]
  | .having q hole => by
      intro v
      have hequivalent := fill_equivalent h hole
      simp only [QueryHole.fill, query, conditionClause, hequivalent.compile_eq]
termination_by structural hole => hole

end

end Compile

theorem Query.compile_fill {c other : Condition} (h : c.Equivalent other) (hole : QueryHole)
    (d : Dialect) (supply : AliasSupply) :
    (hole.fill c).compile d supply = (hole.fill other).compile d supply := by
  rw [Query.compile, Query.compile, Query.lower, Query.lower, Compile.query_fill h hole]

/-- A specifier that is read stands for the comparison of what it names. -/
theorem Condition.spec_equivalent {spec : String} {f : Field} {op : Operator}
    (h : Specifier.parse spec = .ok (f, op)) (x : Operand) :
    (Condition.spec spec x).Equivalent (.compare f op x) := by
  refine ⟨fun v s => ?_, rfl⟩
  rw [Compile.condition, Compile.condition, h]
  rfl

/-! ## Putting specifiers together -/

namespace Operator

theorem mem_known {op : Operator} (h : ∀ key, op ≠ other key) : op ∈ known := by
  cases op with
  | other key => exact absurd rfl (h key)
  | _ => decide

theorem isPart_key_of_known {op : Operator} (h : op ∈ known) : Specifier.IsPart op.key := by
  have hparts : ∀ op ∈ known, op.key ≠ "" ∧ ¬"__".toList <:+: op.key.toList := by
    decide +kernel
  obtain ⟨hempty, hfree⟩ := hparts op h
  exact ⟨hempty, hfree⟩

end Operator

namespace Specifier

variable {spec column function key : String} {op : Operator}

theorem Decomposes.isInner_column (h : Decomposes spec [column, key]) : IsInner column := by
  cases h with
  | two hcolumn _ => exact hcolumn

theorem Decomposes.isInner_both (h : Decomposes spec [column, function, key]) :
    IsInner column ∧ IsInner function := by
  cases h with
  | three hcolumn hfunction _ => exact ⟨hcolumn, hfunction⟩

/-- The text for a column is read as that column exactly if the column can stand before another
part. -/
theorem parse_column_key_iff (hop : op ∈ Operator.known) :
    parse (column ++ "__" ++ op.key) = .ok (.named column, op) ↔ IsInner column := by
  constructor
  · intro h
    rcases parse_ok_iff.mp h with ⟨c, k, hparts, hcolumn, -⟩ | ⟨c, f, k, -, hcolumn, -⟩
    · cases hcolumn
      exact hparts.isInner_column
    · cases hcolumn
  · intro hcolumn
    rw [parse_two (.two hcolumn (Operator.isPart_key_of_known hop)),
      Operator.ofKey_key_of_known hop]

theorem parse_function_key_iff (hop : op ∈ Operator.known) :
    parse (column ++ "__" ++ function ++ "__" ++ op.key) =
        .ok (.function function [.named column], op) ↔
      IsInner column ∧ IsInner function := by
  constructor
  · intro h
    rcases parse_ok_iff.mp h with ⟨c, k, -, hcall, -⟩ | ⟨c, f, k, hparts, hcall, -⟩
    · cases hcall
    · cases hcall
      exact hparts.isInner_both
  · rintro ⟨hcolumn, hfunction⟩
    rw [parse_three (.three hcolumn hfunction (Operator.isPart_key_of_known hop)),
      Operator.ofKey_key_of_known hop]

end Specifier

namespace Query

/-- Wherever a condition stands in a query, the specifier for a column and an operator of the known
set compiles as the comparison of the column, to the same clause or the same error and with the same
aliases drawn; and so does the specifier for a function over the column. The names are not empty,
have no separator in them, and do not end with an underscore. -/
theorem compile_shorthand {column : String} (hcolumn : Specifier.IsInner column) {op : Operator}
    (hop : ∀ key, op ≠ .other key) (x : Operand) (hole : QueryHole) (d : Dialect)
    (supply : AliasSupply) :
    (hole.fill (.spec (column ++ "__" ++ op.key) x)).compile d supply =
        (hole.fill (.compare (.named column) op x)).compile d supply ∧
      ∀ function, Specifier.IsInner function →
        (hole.fill (.spec (column ++ "__" ++ function ++ "__" ++ op.key) x)).compile d supply =
          (hole.fill (.compare (.function function [.named column]) op x)).compile d supply := by
  have hknown := Operator.mem_known hop
  constructor
  · have hparse := (Specifier.parse_column_key_iff hknown).mpr hcolumn
    exact compile_fill (Condition.spec_equivalent hparse x) hole d supply
  · intro function hfunction
    have hparse := (Specifier.parse_function_key_iff hknown).mpr ⟨hcolumn, hfunction⟩
    exact compile_fill (Condition.spec_equivalent hparse x) hole d supply

/-- The users with a score as high as is asked for in the HAVING of the nested query. -/
def bestUsers : QueryHole :=
  .filter { action := some (.select [.named "name"]), table := some ⟨"users", none⟩ }
    (.inGroup .and [.spec "name__like" (.literal (.string "a%"))]
      (.inCompare (.named "id") .isIn
        (.having { action := some (.select [.named "user_id"]), table := some ⟨"scores", none⟩,
                   groupBy := [.named "user_id"] } .here))
      [])

theorem compile_shorthand_bestUsers :
    Specifier.IsInner "score" ∧ Specifier.IsInner "max" ∧ (∀ key, Operator.gte ≠ .other key) ∧
      (bestUsers.fill (.spec "score__max__gte" (.literal (.int 90)))).compile
          ShippedDialect.mysql.dialect {} =
        (bestUsers.fill (.compare (.function "max" [.named "score"]) .gte
          (.literal (.int 90)))).compile ShippedDialect.mysql.dialect {} ∧
      ((bestUsers.fill (.spec "score__max__gte" (.literal (.int 90)))).toSql
          ShippedDialect.mysql.dialect).toOption.map Prod.fst =
        some ("SELECT `a`.`name` FROM `users` AS `a` WHERE (`a`.`name` LIKE %s) AND " ++
          "(`a`.`id` IN (SELECT `b`.`user_id` FROM `scores` AS `b` GROUP BY `b`.`user_id` " ++
          "HAVING (MAX(`b`.`score`) >= %s)))") := by
  have hscore : Specifier.IsInner "score" := ⟨⟨by decide, by decide +kernel⟩, by decide⟩
  have hmax : Specifier.IsInner "max" := ⟨⟨by decide, by decide +kernel⟩, by decide⟩
  have hop : ∀ key, Operator.gte ≠ .other key := by
    intro key h
    cases h
  refine ⟨hscore, hmax, hop, ?_, by decide +kernel⟩
  exact (compile_shorthand hscore hop (.literal (.int 90)) bestUsers
    ShippedDialect.mysql.dialect {}).2 "max" hmax

/-- The users for which a condition holds. -/
def usersWhere : QueryHole :=
  .filter { action := some (.select [.named "name"]), table := some ⟨"users", none⟩ } .here

/-- The columns are not empty and have no separator in them, but they end with an underscore. This
goes to the operator in the one specifier, and to the function in the other. -/
theorem not_compile_shorthand_trailing :
    ("id_" ≠ "" ∧ ¬"__".toList <:+: "id_".toList ∧
      (usersWhere.fill (.spec ("id_" ++ "__" ++ Operator.eq.key) (.literal (.int 1)))).compile
          ShippedDialect.mysql.dialect {} ≠
        (usersWhere.fill (.compare (.named "id_") .eq (.literal (.int 1)))).compile
          ShippedDialect.mysql.dialect {} ∧
      (usersWhere.fill (.spec ("id_" ++ "__" ++ Operator.eq.key) (.literal (.int 1)))).toSql
          ShippedDialect.mysql.dialect = .error (.invalid "unknown operator '_eq'") ∧
      ((usersWhere.fill (.compare (.named "id_") .eq (.literal (.int 1)))).toSql
          ShippedDialect.mysql.dialect).toOption.map Prod.fst =
        some "SELECT `a`.`name` FROM `users` AS `a` WHERE (`a`.`id_` <=> %s)") ∧
    ("score_" ≠ "" ∧ ¬"__".toList <:+: "score_".toList ∧
      ((usersWhere.fill (.spec ("score_" ++ "__" ++ "max" ++ "__" ++ Operator.gt.key)
          (.literal (.int 1)))).toSql ShippedDialect.mysql.dialect).toOption.map Prod.fst =
        some "SELECT `a`.`name` FROM `users` AS `a` WHERE (_max(`a`.`score`) > %s)" ∧
      ((usersWhere.fill (.compare (.function "max" [.named "score_"]) .gt
          (.literal (.int 1)))).toSql ShippedDialect.mysql.dialect).toOption.map Prod.fst =
        some "SELECT `a`.`name` FROM `users` AS `a` WHERE (MAX(`a`.`score_`) > %s)") := by
  refine ⟨⟨by decide, by decide +kernel, ?_, rfl, by decide +kernel⟩, by decide,
    by decide +kernel, by decide +kernel, by decide +kernel⟩
  intro h
  have hcompiles := congrArg (fun outcome => outcome.1.isOk) h
  exact absurd hcompiles (by decide +kernel)

end Query

end BoundSql

import BoundSql.Compile
import BoundSql.Proofs.StoredParts

/-! # Queries are read back

The JSON text of a query gives the query again, if there is no floating-point number in it and it
lies no deeper in brackets than the reader goes. -/

namespace BoundSql

open Json

/-! ## Stored values -/

mutual

/-- The values that are stored with the right side of a comparison. -/
def Operand.storedValues : Operand → List Value
  | .literal value => [value]
  | .list values => values
  | .null => []
  | .subquery q => Query.storedValues q
termination_by structural x => x

/-- The values that are stored with a condition. -/
def Condition.storedValues : Condition → List Value
  | .compare _ _ x => Operand.storedValues x
  | .spec _ x => Operand.storedValues x
  | .group _ conditions => Condition.allStoredValues conditions
termination_by structural x => x

def Condition.allStoredValues : List Condition → List Value
  | [] => []
  | c :: rest => Condition.storedValues c ++ Condition.allStoredValues rest
termination_by structural x => x

def Condition.optionStoredValues : Option Condition → List Value
  | none => []
  | some c => Condition.storedValues c
termination_by structural x => x

/-- All values that are stored with a query, those of its subqueries included. -/
def Query.storedValues : Query → List Value
  | ⟨action, _, _, filter, having, _, _, _, _, upsert⟩ =>
    action.elim [] Action.storedValues ++ Condition.optionStoredValues filter ++
      Condition.optionStoredValues having ++ upsert.elim [] Upsert.storedValues
termination_by structural x => x

end

/-! ## Forms -/

mutual

/-- The form in which the right side of a comparison is stored. -/
def Operand.form : Operand → Form
  | .literal value => .plain (.variant "Literal" value.node)
  | .list values => .plain (.variant "List" (.array (values.map Value.node)))
  | .null => .plain (.text "Null")
  | .subquery q => .variant "Subquery" (Query.form q)
termination_by structural x => x

/-- The form in which a condition is stored. -/
def Condition.form : Condition → Form
  | .compare f op x =>
    .variant "Compare" (.record .compare
      [("field", f.form), ("op", .plain op.node), ("value", Operand.form x)])
  | .spec spec x =>
    .variant "Spec" (.record .spec [("spec", .plain (.text spec)), ("value", Operand.form x)])
  | .group op conditions =>
    .variant "Group" (.record .group
      [("op", .plain op.node), ("conditions", .list (Condition.forms conditions))])
termination_by structural x => x

def Condition.forms : List Condition → List Form
  | [] => []
  | c :: rest => Condition.form c :: Condition.forms rest
termination_by structural x => x

def Condition.formOfOption : Option Condition → Form
  | none => .plain .null
  | some c => Condition.form c
termination_by structural x => x

/-- The form in which a query is stored. -/
def Query.form : Query → Form
  | ⟨action, table, join, filter, having, orderBy, groupBy, limit, offset, upsert⟩ =>
    .record .query [
      ("action", .option Action.form action),
      ("table", .option Table.form table),
      ("join", .option Join.form join),
      ("where_clause", Condition.formOfOption filter),
      ("having", Condition.formOfOption having),
      ("order_by", .list (orderBy.map OrderBy.form)),
      ("group_by", .list (groupBy.map Field.form)),
      ("limit", .option (fun n => .plain (.int n.toInt)) limit),
      ("offset", .option (fun n => .plain (.int n.toInt)) offset),
      ("on_duplicate_key", .option Upsert.form upsert)]
termination_by structural x => x

end

mutual

theorem Operand.form_node : (x : Operand) → x.form.node = x.node
  | .literal _ => rfl
  | .list _ => rfl
  | .null => rfl
  | .subquery q => by rw [Operand.form, Operand.node, Form.node, Query.form_node q]
termination_by structural x => x

theorem Condition.form_node : (c : Condition) → c.form.node = c.node
  | .compare f op x => by
    simp [Condition.form, Condition.node, Form.node, Form.fieldNodes, f.form_node,
      Operand.form_node x]
  | .spec spec x => by
    simp [Condition.form, Condition.node, Form.node, Form.fieldNodes, Operand.form_node x]
  | .group op conditions => by
    simp [Condition.form, Condition.node, Form.node, Form.fieldNodes,
      Condition.forms_node conditions]
termination_by structural x => x

theorem Condition.forms_node : (conditions : List Condition) →
    Form.nodes (Condition.forms conditions) = Condition.nodes conditions
  | [] => rfl
  | c :: rest => by
    rw [Condition.forms, Form.nodes, Condition.nodes, Condition.form_node c,
      Condition.forms_node rest]
termination_by structural x => x

theorem Condition.formOfOption_node : (o : Option Condition) →
    (Condition.formOfOption o).node = Condition.nodeOfOption o
  | none => rfl
  | some c => Condition.form_node c
termination_by structural x => x

/-- The form of a query has the node that the query is stored as. -/
theorem Query.form_node : (q : Query) → q.form.node = q.node
  | ⟨action, table, join, filter, having, orderBy, groupBy, limit, offset, upsert⟩ => by
    simp [Query.form, Query.node, Form.node, Form.fieldNodes, Form.node_option,
      Action.form_node, Table.form_node, Join.form_node, Upsert.form_node,
      Condition.formOfOption_node filter, Condition.formOfOption_node having,
      Form.nodes_map OrderBy.form_node, Form.nodes_map Field.form_node]
termination_by structural x => x

end

/-! ## Conditions -/

namespace Condition

theorem forms_eq_map (conditions : List Condition) : forms conditions = conditions.map form := by
  induction conditions with
  | nil => rfl
  | cons c rest ih => rw [forms, ih, List.map_cons]

theorem formOfOption_eq (c : Option Condition) : formOfOption c = Form.option form c := by
  cases c <;> rfl

theorem listOfNode?_eq (d : Nat) (n : Node) :
    Condition.listOfNode? d n = BoundSql.listOfNode? ofNode? d n := by
  cases d <;> cases n <;> rfl

theorem reads_compare {field : Field} {op : Operator} {x : Operand}
    (h : x.form.Reads Operand.ofNode? x) :
    (Form.record .compare
      [("field", field.form), ("op", .plain op.node), ("value", x.form)]).Reads
      compareOfNode? (.compare field op x) := by
  have hfield := field.reads_form
  have hop := op.stores_node
  refine .record compareShape rfl rfl
    (by simpa using ⟨hfield.wellSpelled, hop.wellSpelled, h.wellSpelled⟩)
    (fun d n hnone => by simp [compareOfNode?, hnone]) fun d n found legible hthin hfound hd => ?_
  obtain _ | ⟨leftField, _ | ⟨leftOp, _ | ⟨leftValue, _ | _⟩⟩⟩ := hthin
  simp only [List.forall_mem_cons] at hd
  obtain ⟨rfl, rfl⟩ | ⟨_, rfl, hleft⟩ := leftField.needed (by decide) hfield hd.1
  · simp [compareOfNode?, hfound]
  obtain ⟨rfl, rfl⟩ | ⟨_, rfl, hmiddle⟩ := leftOp.needed (by decide) (.plain hop) hd.2.1
  · simp [compareOfNode?, hfound]
  obtain ⟨rfl, rfl⟩ | ⟨_, rfl, hright⟩ := leftValue.needed (by decide) h hd.2.2.1
  · simp [compareOfNode?, hfound]
  simp [compareOfNode?, hfound, hleft, hmiddle, hright, ite_and]

theorem reads_spec {spec : String} {x : Operand} (h : x.form.Reads Operand.ofNode? x) :
    (Form.record .spec [("spec", .plain (.text spec)), ("value", x.form)]).Reads
      specOfNode? (.spec spec x) := by
  refine .record specShape rfl rfl (by simpa [Form.node] using h.wellSpelled)
    (fun d n hnone => by simp [specOfNode?, hnone]) fun d n found legible hthin hfound hd => ?_
  obtain _ | ⟨leftSpec, _ | ⟨leftValue, _ | _⟩⟩ := hthin
  simp only [List.forall_mem_cons] at hd
  obtain ⟨rfl, rfl⟩ | ⟨_, rfl, hspec⟩ := leftSpec.needed (by decide) (.plain (.text spec)) hd.1
  · simp [specOfNode?, hfound]
  obtain ⟨rfl, rfl⟩ | ⟨_, rfl, hvalue⟩ := leftValue.needed (by decide) h hd.2.1
  · simp [specOfNode?, hfound]
  simp [specOfNode?, hfound, hspec, hvalue, ite_and]

theorem reads_group {op : LogicalOp} {conditions : List Condition}
    (h : (Form.list (forms conditions)).Reads (BoundSql.listOfNode? ofNode?) conditions) :
    (Form.record .group [("op", .plain op.node), ("conditions", .list (forms conditions))]).Reads
      groupOfNode? (.group op conditions) := by
  have hop := op.stores_node
  refine .record groupShape rfl rfl (by simpa using ⟨hop.wellSpelled, h.wellSpelled⟩)
    (fun d n hnone => by simp [groupOfNode?, hnone]) fun d n found legible hthin hfound hd => ?_
  obtain _ | ⟨leftOp, _ | ⟨leftConditions, _ | _⟩⟩ := hthin
  simp only [List.forall_mem_cons] at hd
  obtain ⟨rfl, rfl⟩ | ⟨_, rfl, hword⟩ := leftOp.needed (by decide) (.plain hop) hd.1
  · simp [groupOfNode?, hfound]
  obtain ⟨rfl, rfl⟩ | ⟨_, rfl, hconditions⟩ := leftConditions.needed (by decide) h hd.2.1
  · simp [groupOfNode?, hfound]
  simp [groupOfNode?, hfound, listOfNode?_eq, hword, hconditions, ite_and]

end Condition

/-! ## Queries -/

/-- A query is read or not as its verb, conditions and upsert are. -/
theorem Query.reads_of_parts {q : Query}
    (haction : ∀ a ∈ q.action, a.form.Reads Action.ofNode? a)
    (hfilter : ∀ c ∈ q.filter, c.form.Reads Condition.ofNode? c)
    (hhaving : ∀ c ∈ q.having, c.form.Reads Condition.ofNode? c)
    (hupsert : ∀ u ∈ q.upsert, u.form.Reads Upsert.ofNode? u) :
    q.form.Reads Query.ofNode? q := by
  obtain ⟨action, table, join, filter, having, orderBy, groupBy, limit, offset, upsert⟩ := q
  rw [form, Condition.formOfOption_eq, Condition.formOfOption_eq]
  have htable := fun t (_ : t ∈ table) => t.reads_form
  have hjoin := fun j (_ : j ∈ join) => j.reads_form
  have horder := fun entry (_ : entry ∈ orderBy) => entry.reads_form
  have hgroup := fun f (_ : f ∈ groupBy) => f.reads_form
  have hlimit := fun n (_ : n ∈ limit) => Form.Reads.plain (Int64.stores_node n)
  have hoffset := fun n (_ : n ∈ offset) => Form.Reads.plain (Int64.stores_node n)
  refine .record shape rfl rfl ?_ (fun d n hnone => by simp [ofNode?, hnone])
    fun d n found legible hthin hfound hd => ?_
  · simpa using ⟨Form.wellSpelled_option haction, Form.wellSpelled_option htable,
      Form.wellSpelled_option hjoin, Form.wellSpelled_option hfilter,
      Form.wellSpelled_option hhaving, (Form.Reads.list horder).wellSpelled,
      (Form.Reads.list hgroup).wellSpelled, Form.wellSpelled_option hlimit,
      Form.wellSpelled_option hoffset, Form.wellSpelled_option hupsert⟩
  obtain _ | ⟨leftAction, _ | ⟨leftTable, _ | ⟨leftJoin, _ | ⟨leftFilter, _ | ⟨leftHaving,
    _ | ⟨leftOrder, _ | ⟨leftGroup, _ | ⟨leftLimit, _ | ⟨leftOffset,
    _ | ⟨leftUpsert, _ | _⟩⟩⟩⟩⟩⟩⟩⟩⟩⟩ := hthin
  simp only [List.forall_mem_cons] at hd
  obtain ⟨dAction, dTable, dJoin, dFilter, dHaving, dOrder, dGroup, dLimit, dOffset,
    dUpsert, -⟩ := hd
  simp [ofNode?, hfound, ite_and,
    leftAction.field?_eq (by decide) haction (by cases d <;> rfl) dAction,
    leftTable.field?_eq (by decide) htable (by cases d <;> rfl) dTable,
    leftJoin.field?_eq (by decide) hjoin (by cases d <;> rfl) dJoin,
    leftFilter.field?_eq (by decide) hfilter (by cases d <;> rfl) dFilter,
    leftHaving.field?_eq (by decide) hhaving (by cases d <;> rfl) dHaving,
    leftOrder.listOfField?_eq (by decide) horder dOrder,
    leftGroup.listOfField?_eq (by decide) hgroup dGroup,
    leftLimit.field?_eq (by decide) hlimit rfl dLimit,
    leftOffset.field?_eq (by decide) hoffset rfl dOffset,
    leftUpsert.field?_eq (by decide) hupsert (by cases d <;> rfl) dUpsert]

mutual

theorem Operand.reads_form : (x : Operand) → (∀ v ∈ x.storedValues, v.isFloatFree = true) →
    x.form.Reads Operand.ofNode? x
  | .literal value, h => by
    have hvalue := Value.stores_node (h value List.mem_cons_self)
    exact .plain (.variant (.map Operand.literal hvalue) fun _ => rfl)
  | .list values, h => by
    have hvalues := stores_list fun v hv => Value.stores_node (h v hv)
    exact .plain (.variant (.map Operand.list hvalues) fun _ => rfl)
  | .null, _ => .plain ⟨trivial, fun d _ => by cases d <;> rfl⟩
  | .subquery q, h => .variant (.map Operand.subquery (Query.reads_form q h)) fun _ _ => rfl
termination_by structural x => x

theorem Condition.reads_form : (c : Condition) → (∀ v ∈ c.storedValues, v.isFloatFree = true) →
    c.form.Reads Condition.ofNode? c
  | .compare _ _ x, h => .variant (Condition.reads_compare (Operand.reads_form x h)) fun _ _ => rfl
  | .spec _ x, h => .variant (Condition.reads_spec (Operand.reads_form x h)) fun _ _ => rfl
  | .group _ conditions, h => by
    have hconditions := Form.Reads.list (Condition.reads_all conditions h)
    rw [← Condition.forms_eq_map] at hconditions
    exact .variant (Condition.reads_group hconditions) fun _ _ => rfl
termination_by structural x => x

theorem Condition.reads_all : (conditions : List Condition) →
    (∀ v ∈ Condition.allStoredValues conditions, v.isFloatFree = true) →
    ∀ c ∈ conditions, c.form.Reads Condition.ofNode? c
  | [], _ => nofun
  | c :: rest, h =>
    have ⟨hc, hrest⟩ := List.forall_mem_append.mp h
    List.forall_mem_cons.mpr ⟨Condition.reads_form c hc, Condition.reads_all rest hrest⟩
termination_by structural x => x

theorem Condition.reads_option : (o : Option Condition) →
    (∀ v ∈ Condition.optionStoredValues o, v.isFloatFree = true) →
    ∀ c ∈ o, c.form.Reads Condition.ofNode? c
  | none, _ => nofun
  | some c, h => fun _ heq => Option.some.inj heq ▸ Condition.reads_form c h
termination_by structural x => x

/-- What is left of a query is read as the query if it is legible, and is not read otherwise. -/
theorem Query.reads_form : (q : Query) → (∀ v ∈ q.storedValues, v.isFloatFree = true) →
    q.form.Reads Query.ofNode? q
  | ⟨action, table, join, filter, having, orderBy, groupBy, limit, offset, upsert⟩, h => by
    simp only [Query.storedValues, List.forall_mem_append] at h
    obtain ⟨⟨⟨haction, hfilter⟩, hhaving⟩, hupsert⟩ := h
    refine Query.reads_of_parts ?_ (Condition.reads_option filter hfilter)
      (Condition.reads_option having hhaving) ?_
    · rintro a rfl
      exact Action.reads_form haction
    · rintro u rfl
      exact Upsert.reads_form hupsert
termination_by structural x => x

end

/-- A query without floating-point numbers is read from its node. -/
theorem Query.stores_node (q : Query) (h : ∀ v ∈ q.storedValues, v.isFloatFree = true) :
    q.node.Stores Query.ofNode? q :=
  q.form_node ▸ (q.reads_form h).stores

/-- The text of a query is read as the query itself, which then gives the same statement or the
same error in every dialect. -/
theorem Query.ofJsonText?_toJsonText {q : Query}
    (hvalues : ∀ v ∈ q.storedValues, v.isFloatFree = true) (hdepth : q.node.depth ≤ maxDepth) :
    ofJsonText? q.toJsonText = some q ∧
      ∀ d : Dialect, (ofJsonText? q.toJsonText).map (toSql d) = some (q.toSql d) := by
  have hstores := q.stores_node hvalues
  have hread : ofJsonText? q.toJsonText = some q := by
    rw [ofJsonText?, toJsonText, Node.render, String.toList_ofList,
      Node.read_chars hstores.wellSpelled, Option.bind_some, hstores.read_eq maxDepth hdepth]
  exact ⟨hread, fun d => by rw [hread, Option.map_some]⟩

/-- A query with values of most kinds, among them a text with quotes, a control character and a
letter beyond the first 65536. -/
def Query.recentNotes : Query where
  action := some (.select [.named "id", .count none])
  table := some ⟨"notes", some "café"⟩
  join := some ⟨.left, ⟨"users", none⟩, "author", "id"⟩
  filter := some (.group .and [
    .compare (.named "title") .like (.literal (.string "\"Ω\n\\𝄞\x01")),
    .spec "digest__eq" (.literal (.bytes [0, 255])),
    .compare (.named "labels") (.other "@>") (.literal (.json ⟨.object [("a", .null),
      ("b", .array [.number (.integer (-3) (by decide)), .bool true])], rfl⟩)),
    .compare (.named "written") .gte
      (.literal (.timestamp ⟨-44, 3, 15, 12, 0, 60, 500000000, rfl, rfl⟩)),
    .compare (.named "author") .isIn (.subquery
      { action := some (.select [.named "id"])
        table := some ⟨"authors", none⟩
        filter := some (.compare (.named "left") .is .null) })])
  groupBy := [.named "author"]
  orderBy := [⟨.named "written", none⟩, .desc (.named "id")]
  limit := some 10

theorem Query.ofJsonText?_toJsonText_recentNotes :
    recentNotes.storedValues.all Value.isFloatFree = true ∧ recentNotes.node.depth = 11 ∧
      ofJsonText? recentNotes.toJsonText = some recentNotes := by
  have hvalues : recentNotes.storedValues.all Value.isFloatFree = true := by decide
  have hdepth : recentNotes.node.depth = 11 := by decide
  exact ⟨hvalues, hdepth,
    (Query.ofJsonText?_toJsonText (List.all_eq_true.mp hvalues) (by rw [hdepth]; decide)).1⟩

end BoundSql

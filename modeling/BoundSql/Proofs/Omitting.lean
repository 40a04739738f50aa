import BoundSql.Proofs.Reloading

/-! # Queries whose text leaves members out

The text of a query may leave out what is not set, in the query and in all that lies in it. It is
then read as the same query. A text that leaves out more is not read. -/

namespace BoundSql

open Json

/-- The text of a query may leave out, in the query and in all that lies in it, the members that
hold null or an empty list and that a record can do without; it is then read as the same query. A
text that leaves out any other member, or has null where a list could be left out, is not read. -/
theorem Query.ofJsonText?_thinned {q : Query}
    (hvalues : ∀ v ∈ q.storedValues, v.isFloatFree = true) (hdepth : q.node.depth ≤ maxDepth) :
    q.form.node.render = q.toJsonText ∧
      ∀ n legible, q.form.Thinned n legible →
        ofJsonText? n.render = if legible then some q else none := by
  refine ⟨by rw [q.form_node, toJsonText], fun n legible hthin => ?_⟩
  have hreads := q.reads_form hvalues
  have hspelled : n.WellSpelled := hthin.wellSpelled hreads.wellSpelled
  have hread := hreads.read_eq n legible hthin maxDepth (q.form_node ▸ hdepth)
  rw [ofJsonText?, Node.render, String.toList_ofList, Node.read_chars hspelled, Option.bind_some,
    hread]

/-- The ids of all tags. -/
def Query.tagIds : Query where
  action := some (.select [.named "id"])
  table := some ⟨"tags", none⟩

/-- A query that deletes the notes with any of the tags. -/
def Query.taggedNotes : Query where
  action := some .delete
  table := some ⟨"notes", none⟩
  filter := some (.spec "tag__in" (.subquery tagIds))

/-- The query without what is not set in it. Its subquery has these members of its table, and the
others behind it. -/
def Query.taggedNotesNode (table others : List (String × Node)) : Node :=
  .record [("action", .text "Delete"), ("table", .record [("name", .text "notes")]),
    ("where_clause", .variant "Spec" (.record [("spec", .text "tag__in"),
      ("value", .variant "Subquery" (.record
        (("action", Action.node (.select [.named "id"])) :: ("table", .record table) ::
          others)))]))]

/-- The subquery may leave out what is not set. It may not have null for its order, and its table
may not lack the name. -/
theorem Query.ofJsonText?_thinned_taggedNotes :
    taggedNotes.storedValues.all Value.isFloatFree = true ∧ taggedNotes.node.depth ≤ maxDepth ∧
      ofJsonText? (taggedNotesNode [("name", .text "tags")] []).render = some taggedNotes ∧
      ofJsonText? (taggedNotesNode [("name", .text "tags")] [("order_by", .null)]).render = none ∧
      ofJsonText? (taggedNotesNode [] []).render = none := by
  have hvalues : taggedNotes.storedValues.all Value.isFloatFree = true := by decide
  have hdepth : taggedNotes.node.depth ≤ maxDepth := by decide
  have hread := (Query.ofJsonText?_thinned (List.all_eq_true.mp hvalues) hdepth).2
  have htable : ∀ name, (Table.form ⟨name, none⟩).Thinned (.record [("name", .text name)]) true :=
    fun _ => .record (.cons (.kept (.plain _)) (.cons (.null (by decide)) .nil))
  have haction : (Action.form (.select [.named "id"])).Thinned
      (Action.node (.select [.named "id"])) true :=
    .variant (.list (.cons (.plain _) .nil))
  have hbounds : Form.FieldsThinned .query
      [("limit", .plain .null), ("offset", .plain .null), ("on_duplicate_key", .plain .null)]
      [none, none, none] true :=
    .cons (.null (by decide)) (.cons (.null (by decide)) (.cons (.null (by decide)) .nil))
  have hlists : Form.FieldsThinned .query
      (("order_by", .list []) :: ("group_by", .list []) ::
        [("limit", .plain .null), ("offset", .plain .null), ("on_duplicate_key", .plain .null)])
      [none, none, none, none, none] true :=
    .cons (.empty (by decide)) (.cons (.empty (by decide)) hbounds)
  have houter : ∀ table others legible,
      tagIds.form.Thinned (.record (("action", Action.node (.select [.named "id"])) ::
        ("table", .record table) :: others)) legible →
      taggedNotes.form.Thinned (taggedNotesNode table others) legible := by
    intro table others legible h
    have hspec : Form.FieldThinned .query "where_clause"
        (Condition.form (.spec "tag__in" (.subquery tagIds)))
        (some (.variant "Spec" (.record [("spec", .text "tag__in"), ("value", .variant "Subquery"
          (.record (("action", Action.node (.select [.named "id"])) ::
            ("table", .record table) :: others)))]))) (true && (legible && true)) :=
      .kept (.variant (.record (.cons (.kept (.plain _)) (.cons (.kept (.variant h)) .nil))))
    -- The flag of the whole is computed from that of the subquery, once this is known.
    cases legible <;>
      exact .record (.cons (.kept (.plain _)) (.cons (.kept (htable "notes"))
        (.cons (.null (by decide)) (.cons hspec (.cons (.null (by decide)) hlists)))))
  refine ⟨hvalues, hdepth, hread _ true (houter _ _ true ?_), hread _ false (houter _ _ false ?_),
    hread _ false (houter _ _ false ?_)⟩
  · exact .record (.cons (.kept haction) (.cons (.kept (htable "tags"))
      (.cons (.null (by decide)) (.cons (.null (by decide)) (.cons (.null (by decide)) hlists)))))
  · exact .record (.cons (.kept haction) (.cons (.kept (htable "tags"))
      (.cons (.null (by decide)) (.cons (.null (by decide)) (.cons (.null (by decide))
      (.cons (.nulled (by decide)) (.cons (.empty (by decide)) hbounds)))))))
  · exact .record (.cons (.kept haction)
      (.cons (.kept (.record (.cons (.lost (by decide)) (.cons (.null (by decide)) .nil))))
      (.cons (.null (by decide)) (.cons (.null (by decide)) (.cons (.null (by decide)) hlists)))))

end BoundSql

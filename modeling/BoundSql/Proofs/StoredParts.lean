import BoundSql.Proofs.Json.Trees
import BoundSql.Proofs.Thinning
import BoundSql.Proofs.Timestamps

/-! # Reading the parts of a stored query

Names, values, rows, fields and tables are read back from what they are stored as. -/

namespace BoundSql

open Json

/-! ## Names of variants -/

/-- A listed name is read back at any depth. -/
theorem stores_name {α : Type} {names : List (String × α)} {name : String} {a : α}
    (h : (names.find? fun entry => entry.1 == name).map Prod.snd = some a) :
    (Node.text name).Stores (Node.unit? names) a where
  wellSpelled := trivial
  read_eq d _ := by cases d <;> exact h

theorem LogicalOp.stores_node (op : LogicalOp) : op.node.Stores (Node.unit? names) op := by
  cases op <;> exact stores_name rfl

theorem SortOrder.stores_node (o : SortOrder) : o.node.Stores (Node.unit? names) o := by
  cases o <;> exact stores_name rfl

theorem JoinKind.stores_node (k : JoinKind) : k.node.Stores (Node.unit? names) k := by
  cases k <;> exact stores_name rfl

theorem InsertMode.stores_node (m : InsertMode) : m.node.Stores (Node.unit? names) m := by
  cases m <;> exact stores_name rfl

theorem Operator.stores_of_unit {n : Node} {op : Operator} (h : n.Stores (Node.unit? names) op) :
    n.Stores ofNode? op where
  wellSpelled := h.wellSpelled
  read_eq d hd := by simp only [ofNode?, h.read_eq d hd]

theorem Operator.stores_node (op : Operator) : op.node.Stores ofNode? op := by
  cases op with
  | other key => exact .variant (.map Operator.other (.text key)) fun _ => rfl
  | _ => exact stores_of_unit (stores_name rfl)

/-! ## Values -/

theorem Json.Node.intWithin?_int {low high n : Int} (h : low ≤ n ∧ n ≤ high) :
    (Node.int n).intWithin? low high = some n := by
  simp [Node.int, intWithin?, Numeral.toInt?_ofInt, h]

theorem Int64.stores_node (n : Int64) : (Node.int n.toInt).Stores (fun _ => Int64.ofNode?) n where
  wellSpelled := Numeral.wellSpelled_ofInt _
  read_eq d _ := by
    rw [ofNode?, Node.intWithin?_int ⟨n.minValue_le_toInt, n.toInt_le⟩, Option.map_some,
      Int64.ofInt_toInt]

theorem stores_byte (b : UInt8) : (Node.int b.toNat).Stores (fun _ => byteOfNode?) b where
  wellSpelled := Numeral.wellSpelled_ofInt _
  read_eq d _ := by
    have hb := b.toNat_lt
    rw [byteOfNode?, Node.intWithin?_int (by omega), Option.map_some, Int.toNat_natCast,
      UInt8.ofNat_toNat]

theorem stores_list {α : Type} {node : α → Node} {read : Nat → Node → Option α} {as : List α}
    (h : ∀ a ∈ as, (node a).Stores read a) :
    (Node.array (as.map node)).Stores (listOfNode? read) as where
  wellSpelled := Node.allWellSpelled_iff.mpr
    (List.forall_mem_map.mpr fun a ha => (h a ha).wellSpelled)
  read_eq d hd := by
    obtain ⟨k, rfl, hitems⟩ := Node.depth_array_le hd
    exact Node.mapM_map_eq_some fun a ha =>
      (h a ha).read_eq k (hitems (node a) (List.mem_map_of_mem ha))

/-- There is no floating-point number in the value. -/
def Value.isFloatFree : Value → Bool
  | float _ => false
  | json j => j.tree.isIntegral
  | null | bool _ | int _ | string _ | bytes _ | timestamp _ => true

theorem Value.stores_node {v : Value} (h : v.isFloatFree = true) :
    v.node.Stores Value.ofNode? v := by
  cases v with
  | null => exact ⟨trivial, fun d _ => by cases d <;> rfl⟩
  | bool b =>
      have hb : (Node.bool b).Stores (fun _ => Node.bool?) b := ⟨trivial, fun _ _ => rfl⟩
      exact .variant (.map bool hb) fun _ => rfl
  | int n => exact .variant (.map int (Int64.stores_node n)) fun _ => rfl
  | float x => cases h
  | string s => exact .variant (.map string (.text s)) fun _ => rfl
  | bytes bs => exact .variant (.map bytes (stores_list fun b _ => stores_byte b)) fun _ => rfl
  | timestamp t =>
      have ht : (Node.text t.render).Stores (fun _ n => n.text?.bind Timestamp.ofString?) t :=
        ⟨trivial, fun _ _ => t.ofString?_render⟩
      exact .variant (.map timestamp ht) fun _ => rfl
  | json j => exact .variant (.map json (Json.stores_node h)) fun _ => rfl

/-! ## Rows -/

theorem Row.stores_entry (column : String) {value : Value} (h : value.isFloatFree = true) :
    (Node.array [.text column, value.node]).Stores entryOfNode? (column, value) where
  wellSpelled := ⟨trivial, (Value.stores_node h).wellSpelled, trivial⟩
  read_eq d hd := by
    obtain ⟨k, rfl, hitems⟩ := Node.depth_array_le hd
    have hvalue := (Value.stores_node h).read_eq k (hitems _ (by simp))
    simp [entryOfNode?, Node.text, Node.text?, hvalue]

/-- The form in which a row is stored. -/
def Row.form (row : Row) : Form :=
  .record .row [("entries", .plain (.array (row.entries.map fun (column, value) =>
    .array [.text column, value.node])))]

theorem Row.form_node (row : Row) : row.form.node = row.node :=
  rfl

theorem Row.reads_form {row : Row} (h : ∀ v ∈ row.values, v.isFloatFree = true) :
    row.form.Reads Row.ofNode? row := by
  have hentries := stores_list fun (entry : String × Value) hentry =>
    Row.stores_entry entry.1 (h entry.2 (List.mem_map_of_mem hentry))
  refine .record shape rfl rfl (by simpa [Form.node] using hentries.wellSpelled)
    (fun d n hnone => by simp [ofNode?, hnone]) fun d n found legible hthin hfound hd => ?_
  obtain _ | ⟨leftEntries, _ | _⟩ := hthin
  simp only [List.forall_mem_cons] at hd
  obtain ⟨rfl, rfl⟩ | ⟨_, rfl, hread⟩ := leftEntries.needed (by decide) (.plain hentries) hd.1
  · simp [ofNode?, hfound]
  simp [ofNode?, hfound, hread]

/-! ## Fields -/

mutual

/-- The form in which a field is stored. -/
def Field.form : Field → Form
  | .named name => .plain (.variant "Named" (.text name))
  | .function name args =>
    .variant "Function" (.record .call
      [("name", .plain (.text name)), ("args", .list (Field.forms args))])
  | .raw text => .plain (.variant "Raw" (.text text))

def Field.forms : List Field → List Form
  | [] => []
  | f :: rest => Field.form f :: Field.forms rest

end

namespace Field

theorem forms_eq_map (fields : List Field) : forms fields = fields.map form := by
  induction fields with
  | nil => rfl
  | cons f rest ih => rw [forms, ih, List.map_cons]

mutual

theorem form_node : (f : Field) → f.form.node = f.node
  | .named _ => rfl
  | .raw _ => rfl
  | .function _ args => by simp [form, node, Form.node, Form.fieldNodes, forms_node args]

theorem forms_node : (fields : List Field) → Form.nodes (forms fields) = nodes fields
  | [] => rfl
  | f :: rest => by rw [forms, Form.nodes, nodes, form_node f, forms_node rest]

end

theorem argsOfNode?_eq (d : Nat) (n : Node) : argsOfNode? d n = listOfNode? ofNode? d n := by
  cases d <;> cases n <;> rfl

theorem reads_call {name : String} {args : List Field}
    (h : (Form.list (forms args)).Reads (listOfNode? ofNode?) args) :
    (Form.record .call [("name", .plain (.text name)), ("args", .list (forms args))]).Reads
      callOfNode? (.function name args) := by
  refine .record callShape rfl rfl (by simpa [Form.node] using h.wellSpelled)
    (fun d n hnone => by simp [callOfNode?, hnone]) fun d n found legible hthin hfound hd => ?_
  obtain _ | ⟨leftName, _ | ⟨leftArgs, _ | _⟩⟩ := hthin
  simp only [List.forall_mem_cons] at hd
  obtain ⟨rfl, rfl⟩ | ⟨_, rfl, hname⟩ := leftName.needed (by decide) (.plain (.text name)) hd.1
  · simp [callOfNode?, hfound]
  obtain ⟨rfl, rfl⟩ | ⟨_, rfl, hargs⟩ := leftArgs.needed (by decide) h hd.2.1
  · simp [callOfNode?, hfound]
  simp [callOfNode?, hfound, argsOfNode?_eq, hname, hargs, ite_and]

mutual

theorem reads_form : (f : Field) → f.form.Reads Field.ofNode? f
  | .named name => .plain (.variant (.map Field.named (.text name)) fun _ => rfl)
  | .raw text => .plain (.variant (.map Field.raw (.text text)) fun _ => rfl)
  | .function _ args => by
    have hargs := Form.Reads.list (reads_all args)
    rw [← forms_eq_map] at hargs
    exact .variant (reads_call hargs) fun _ _ => rfl

theorem reads_all : (fields : List Field) → ∀ f ∈ fields, f.form.Reads Field.ofNode? f
  | [] => nofun
  | f :: rest => List.forall_mem_cons.mpr ⟨reads_form f, reads_all rest⟩

end

end Field

/-- The form in which an entry of an order is stored. -/
def OrderBy.form (entry : OrderBy) : Form :=
  .record .orderBy [("field", entry.field.form),
    ("direction", .option (fun o => .plain o.node) entry.direction)]

theorem OrderBy.form_node (entry : OrderBy) : entry.form.node = entry.node := by
  simp [form, node, Form.node, Form.fieldNodes, Form.node_option, Field.form_node]

theorem OrderBy.reads_form (entry : OrderBy) : entry.form.Reads OrderBy.ofNode? entry := by
  have hfield := entry.field.reads_form
  have hdirection := fun o (_ : o ∈ entry.direction) => Form.Reads.plain (SortOrder.stores_node o)
  refine .record shape rfl rfl
    (by simpa using ⟨hfield.wellSpelled, Form.wellSpelled_option hdirection⟩)
    (fun d n hnone => by simp [ofNode?, hnone]) fun d n found legible hthin hfound hd => ?_
  obtain _ | ⟨leftField, _ | ⟨leftDirection, _ | _⟩⟩ := hthin
  simp only [List.forall_mem_cons] at hd
  obtain ⟨rfl, rfl⟩ | ⟨_, rfl, hread⟩ := leftField.needed (by decide) hfield hd.1
  · simp [ofNode?, hfound]
  have hreads := leftDirection.field?_eq (by decide) hdirection (by cases d <;> rfl) hd.2.1
  simp [ofNode?, hfound, hread, hreads, ite_and]

/-! ## Tables -/

/-- The form in which a table is stored. -/
def Table.form (t : Table) : Form :=
  .record .table [("name", .plain (.text t.name)),
    ("schema", .option (fun s => .plain (.text s)) t.schema)]

theorem Table.form_node (t : Table) : t.form.node = t.node := by
  simp [form, node, Form.node, Form.fieldNodes, Form.node_option]

theorem Table.reads_form (t : Table) : t.form.Reads Table.ofNode? t := by
  have hschema := fun s (_ : s ∈ t.schema) => Form.Reads.plain (.text s)
  refine .record shape rfl rfl (by simpa [Form.node] using Form.wellSpelled_option hschema)
    (fun d n hnone => by simp [ofNode?, hnone]) fun d n found legible hthin hfound hd => ?_
  obtain _ | ⟨leftName, _ | ⟨leftSchema, _ | _⟩⟩ := hthin
  simp only [List.forall_mem_cons] at hd
  obtain ⟨rfl, rfl⟩ | ⟨_, rfl, hname⟩ := leftName.needed (by decide) (.plain (.text t.name)) hd.1
  · simp [ofNode?, hfound]
  have hreads := leftSchema.field?_eq (by decide) hschema rfl hd.2.1
  simp [ofNode?, hfound, hname, hreads, ite_and]

/-- The form in which a join is stored. -/
def Join.form (j : Join) : Form :=
  .record .join [("kind", .plain j.kind.node), ("table", j.table.form),
    ("main_field", .plain (.text j.mainField)), ("join_field", .plain (.text j.joinField))]

theorem Join.form_node (j : Join) : j.form.node = j.node := by
  simp [form, node, Form.node, Form.fieldNodes, Table.form_node]

theorem Join.reads_form (j : Join) : j.form.Reads Join.ofNode? j := by
  refine .record shape rfl rfl
    (by simpa [Form.node] using ⟨j.kind.stores_node.wellSpelled, j.table.reads_form.wellSpelled⟩)
    (fun d n hnone => by simp [ofNode?, hnone]) fun d n found legible hthin hfound hd => ?_
  obtain _ | ⟨leftKind, _ | ⟨leftTable, _ | ⟨leftMain, _ | ⟨leftJoin, _ | _⟩⟩⟩⟩ := hthin
  simp only [List.forall_mem_cons] at hd
  obtain ⟨rfl, rfl⟩ | ⟨_, rfl, hkind⟩ :=
    leftKind.needed (by decide) (.plain j.kind.stores_node) hd.1
  · simp [ofNode?, hfound]
  obtain ⟨rfl, rfl⟩ | ⟨_, rfl, htable⟩ := leftTable.needed (by decide) j.table.reads_form hd.2.1
  · simp [ofNode?, hfound]
  obtain ⟨rfl, rfl⟩ | ⟨_, rfl, hmain⟩ :=
    leftMain.needed (by decide) (.plain (.text j.mainField)) hd.2.2.1
  · simp [ofNode?, hfound]
  obtain ⟨rfl, rfl⟩ | ⟨_, rfl, hjoin⟩ :=
    leftJoin.needed (by decide) (.plain (.text j.joinField)) hd.2.2.2.1
  · simp [ofNode?, hfound]
  simp [ofNode?, hfound, hkind, htable, hmain, hjoin, ite_and]

/-! ## Verbs -/

/-- The form in which a verb is stored. -/
def Action.form : Action → Form
  | select fields => .variant "Select" (.list (fields.map Field.form))
  | update assignments => .variant "Update" assignments.form
  | insert rows mode =>
    .variant "Insert" (.record .insert
      [("rows", .list (rows.map Row.form)), ("mode", .plain mode.node)])
  | delete => .plain (.text "Delete")

theorem Action.form_node (a : Action) : a.form.node = a.node := by
  cases a with
  | select fields =>
      rw [form, node, Form.node, Form.node, Form.nodes_map Field.form_node]
  | update assignments => rfl
  | insert rows mode =>
      simp only [form, node, Form.node, Form.fieldNodes, Form.nodes_map Row.form_node]
  | delete => rfl

theorem Action.reads_insert {rows : List Row} {mode : InsertMode}
    (h : (Form.list (rows.map Row.form)).Reads (listOfNode? Row.ofNode?) rows) :
    (Form.record .insert [("rows", .list (rows.map Row.form)), ("mode", .plain mode.node)]).Reads
      insertOfNode? (.insert rows mode) := by
  refine .record insertShape rfl rfl
    (by simpa using ⟨h.wellSpelled, mode.stores_node.wellSpelled⟩)
    (fun d n hnone => by simp [insertOfNode?, hnone]) fun d n found legible hthin hfound hd => ?_
  obtain _ | ⟨leftRows, _ | ⟨leftMode, _ | _⟩⟩ := hthin
  simp only [List.forall_mem_cons] at hd
  obtain ⟨rfl, rfl⟩ | ⟨_, rfl, hrows⟩ := leftRows.needed (by decide) h hd.1
  · simp [insertOfNode?, hfound]
  obtain ⟨rfl, rfl⟩ | ⟨_, rfl, hmode⟩ :=
    leftMode.needed (by decide) (.plain mode.stores_node) hd.2.1
  · simp [insertOfNode?, hfound]
  simp [insertOfNode?, hfound, hrows, hmode, ite_and]

/-- The values that are stored with a verb. -/
def Action.storedValues : Action → List Value
  | select _ | delete => []
  | update assignments => assignments.values
  | insert rows _ => rows.flatMap Row.values

theorem Action.reads_form {a : Action} (h : ∀ v ∈ a.storedValues, v.isFloatFree = true) :
    a.form.Reads Action.ofNode? a := by
  cases a with
  | select fields =>
      exact .variant (.map select (.list fun f _ => f.reads_form)) fun _ _ => rfl
  | update assignments => exact .variant (.map update (Row.reads_form h)) fun _ _ => rfl
  | insert rows mode =>
      have hrows := fun (row : Row) (hrow : row ∈ rows) => Row.reads_form fun v hv =>
        h v (List.mem_flatMap.mpr ⟨row, hrow, hv⟩)
      exact .variant (reads_insert (.list hrows)) fun _ _ => rfl
  | delete => exact .plain ⟨trivial, fun d _ => by cases d <;> rfl⟩

/-- The form in which an upsert is stored. -/
def Upsert.form : Upsert → Form
  | proposed => .plain (.text "Proposed")
  | assign assignments => .variant "Assign" assignments.form

theorem Upsert.form_node (u : Upsert) : u.form.node = u.node := by
  cases u <;> rfl

/-- The values that are stored with an upsert. -/
def Upsert.storedValues : Upsert → List Value
  | proposed => []
  | assign assignments => assignments.values

theorem Upsert.reads_form {u : Upsert} (h : ∀ v ∈ u.storedValues, v.isFloatFree = true) :
    u.form.Reads Upsert.ofNode? u := by
  cases u with
  | proposed => exact .plain ⟨trivial, fun d _ => by cases d <;> rfl⟩
  | assign assignments => exact .variant (.map assign (Row.reads_form h)) fun _ _ => rfl

end BoundSql

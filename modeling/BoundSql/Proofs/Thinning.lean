import BoundSql.Proofs.Json.Shapes
import BoundSql.Query.Decode
import Mathlib.Logic.Basic

/-! # Records without some of their members

A form is a node in which the records of a stored query are marked. Members can be taken out of its
records at any depth. A record is legible without the members that say that something is not set;
without any other it is not. -/

namespace BoundSql

open Json

/-! ## Records -/

/-- The records that a query is stored in. -/
inductive RecordKind where
  | query | table | join | orderBy | call | row | insert | compare | spec | group

namespace RecordKind

/-- The fields of a record. -/
def shape : RecordKind → RecordShape
  | query => Query.shape
  | table => Table.shape
  | join => Join.shape
  | orderBy => OrderBy.shape
  | call => Field.callShape
  | row => Row.shape
  | insert => Action.insertShape
  | compare => Condition.compareShape
  | spec => Condition.specShape
  | group => Condition.groupShape

/-- The members that hold null where nothing is set. -/
def nullable : RecordKind → List String
  | query => ["action", "table", "join", "where_clause", "having", "limit", "offset",
      "on_duplicate_key"]
  | table => ["schema"]
  | orderBy => ["direction"]
  | _ => []

/-- The members that hold an empty list where nothing is set. -/
def emptyable : RecordKind → List String
  | query => ["order_by", "group_by"]
  | _ => []

/-- The record cannot do without the member. -/
def Needs (kind : RecordKind) (name : String) : Prop :=
  name ∉ kind.nullable ∧ name ∉ kind.emptyable

theorem required_iff (kind : RecordKind) :
    ∀ entry ∈ kind.shape, entry.2 = .required ↔ kind.Needs entry.1 := by
  unfold Needs
  cases kind <;> decide

instance (kind : RecordKind) (name : String) : Decidable (kind.Needs name) :=
  inferInstanceAs (Decidable (_ ∧ _))

theorem not_mem_emptyable (kind : RecordKind) : ∀ name ∈ kind.nullable, name ∉ kind.emptyable := by
  cases kind <;> decide

theorem nodup_shape (kind : RecordKind) : (kind.shape.map Prod.fst).Nodup := by
  cases kind <;> decide

end RecordKind

/-! ## Forms -/

/-- A node with its records marked. What is not in a record, a variant or a list is plain. -/
inductive Form where
  | plain (n : Node)
  | list (items : List Form)
  | variant (name : String) (content : Form)
  | record (kind : RecordKind) (fields : List (String × Form))

namespace Form

mutual

/-- The node without the marks. -/
def node : Form → Node
  | plain n => n
  | list items => .array (nodes items)
  | variant name content => .variant name (node content)
  | record _ fields => .record (fieldNodes fields)

def nodes : List Form → List Node
  | [] => []
  | item :: rest => node item :: nodes rest

def fieldNodes : List (String × Form) → List (String × Node)
  | [] => []
  | (name, content) :: rest => (name, node content) :: fieldNodes rest

end

/-- What is not set is null. -/
def option {α : Type} (form : α → Form) : Option α → Form
  | some a => form a
  | none => plain .null

theorem nodes_eq_map (items : List Form) : nodes items = items.map node := by
  induction items with
  | nil => rfl
  | cons item rest ih => rw [nodes, ih, List.map_cons]

theorem fieldNodes_eq_map (fields : List (String × Form)) :
    fieldNodes fields = fields.map fun field => (field.1, field.2.node) := by
  induction fields with
  | nil => rfl
  | cons field rest ih => rw [fieldNodes, ih, List.map_cons]

theorem node_option {α : Type} (form : α → Form) (o : Option α) :
    (option form o).node = Node.option (fun a => (form a).node) o := by
  cases o <;> rfl

theorem nodes_map {α : Type} {form : α → Form} {node : α → Node}
    (h : ∀ a, (form a).node = node a) (as : List α) : nodes (as.map form) = as.map node := by
  rw [nodes_eq_map, List.map_map]
  exact List.map_congr_left fun a _ => h a

/-- The members that are left of a record. -/
def present : List String → List (Option Node) → List (String × Node)
  | name :: names, some n :: found => (name, n) :: present names found
  | _ :: names, none :: found => present names found
  | _, _ => []

mutual

/-- A form after members have been taken out of its records. It is legible if only such members have
been taken out that hold null or an empty list, and that the record can do without. It is not
legible if a record lacks a member that it needs, or if null stands for a list. -/
inductive Thinned : Form → Node → Bool → Prop
  | plain (n : Node) : Thinned (plain n) n true
  | list {items : List Form} {nodes : List Node} {legible : Bool} :
    AllThinned items nodes legible → Thinned (list items) (.array nodes) legible
  | variant {name : String} {content : Form} {n : Node} {legible : Bool} :
    Thinned content n legible → Thinned (variant name content) (.variant name n) legible
  | record {kind : RecordKind} {fields : List (String × Form)} {found : List (Option Node)}
    {legible : Bool} : FieldsThinned kind fields found legible →
    Thinned (record kind fields) (.record (present (fields.map Prod.fst) found)) legible

inductive AllThinned : List Form → List Node → Bool → Prop
  | nil : AllThinned [] [] true
  | cons {item : Form} {n : Node} {items : List Form} {nodes : List Node} {first rest : Bool} :
    Thinned item n first → AllThinned items nodes rest →
    AllThinned (item :: items) (n :: nodes) (first && rest)

/-- What is left of each field of a record. -/
inductive FieldsThinned : RecordKind → List (String × Form) → List (Option Node) → Bool → Prop
  | nil {kind : RecordKind} : FieldsThinned kind [] [] true
  | cons {kind : RecordKind} {name : String} {content : Form} {o : Option Node}
    {fields : List (String × Form)} {found : List (Option Node)} {first rest : Bool} :
    FieldThinned kind name content o first → FieldsThinned kind fields found rest →
    FieldsThinned kind ((name, content) :: fields) (o :: found) (first && rest)

/-- What is left of a field. -/
inductive FieldThinned : RecordKind → String → Form → Option Node → Bool → Prop
  | kept {kind : RecordKind} {name : String} {content : Form} {n : Node} {legible : Bool} :
    Thinned content n legible → FieldThinned kind name content (some n) legible
  | null {kind : RecordKind} {name : String} : name ∈ kind.nullable →
    FieldThinned kind name (plain .null) none true
  | empty {kind : RecordKind} {name : String} : name ∈ kind.emptyable →
    FieldThinned kind name (list []) none true
  | lost {kind : RecordKind} {name : String} {content : Form} : kind.Needs name →
    FieldThinned kind name content none false
  | nulled {kind : RecordKind} {name : String} {content : Form} : name ∈ kind.emptyable →
    FieldThinned kind name content (some .null) false

end

/-! ## Nothing left out -/

theorem present_map_some (fields : List (String × Form)) :
    present (fields.map Prod.fst) (fields.map fun field => some field.2.node) =
      fieldNodes fields := by
  induction fields with
  | nil => rfl
  | cons field rest ih => rw [List.map_cons, List.map_cons, present, ih, fieldNodes]

mutual

/-- The whole form is left if nothing has been taken out of it. -/
theorem thinned_node : (f : Form) → f.Thinned f.node true
  | .plain n => .plain n
  | .list items => .list (thinned_nodes items)
  | .variant _ content => .variant (thinned_node content)
  | .record kind fields => by
    rw [node, ← present_map_some]
    exact .record (thinned_fields kind fields)

theorem thinned_nodes : (items : List Form) → AllThinned items (nodes items) true
  | [] => .nil
  | item :: rest => .cons (thinned_node item) (thinned_nodes rest)

theorem thinned_fields (kind : RecordKind) : (fields : List (String × Form)) →
    FieldsThinned kind fields (fields.map fun field => some field.2.node) true
  | [] => .nil
  | (_, content) :: rest => .cons (.kept (thinned_node content)) (thinned_fields kind rest)

end

/-! ## Finding what is left -/

/-- The members that are left have no other names than the fields. -/
theorem mem_of_mem_present {names : List String} {found : List (Option Node)}
    {m : String × Node} (h : m ∈ present names found) : m.1 ∈ names := by
  fun_induction present names found with
  | case1 name names n found ih =>
      rcases List.mem_cons.mp h with rfl | hmem
      · exact List.mem_cons_self
      · exact List.mem_cons_of_mem _ (ih hmem)
  | case2 name names found ih => exact List.mem_cons_of_mem _ (ih h)
  | case3 => cases h

theorem nodup_present {names : List String} {found : List (Option Node)} (h : names.Nodup) :
    ((present names found).map Prod.fst).Nodup := by
  fun_induction present names found with
  | case1 name names n found ih =>
      obtain ⟨hname, hnames⟩ := List.nodup_cons.mp h
      refine List.nodup_cons.mpr ⟨fun hmem => hname ?_, ih hnames⟩
      obtain ⟨m, hm, rfl⟩ := List.mem_map.mp hmem
      exact mem_of_mem_present hm
  | case2 name names found ih => exact ih (List.nodup_cons.mp h).2
  | case3 => exact List.nodup_nil

theorem member?_cons (name other : String) (n : Node) (members : List (String × Node)) :
    (Node.record ((name, n) :: members)).member? other =
      if name = other then some n else (Node.record members).member? other := by
  by_cases hname : name = other <;> simp [Node.record, Node.member?, hname]

theorem member?_present_eq_none {names : List String} {name : String} (h : name ∉ names)
    (found : List (Option Node)) : (Node.record (present names found)).member? name = none := by
  rw [Node.record, Node.member?, Option.map_eq_none_iff, List.find?_eq_none]
  intro m hm
  obtain ⟨member, hmember, rfl⟩ := List.mem_map.mp hm
  have hne : member.1 ≠ name := fun heq => h (heq ▸ mem_of_mem_present hmember)
  simpa using hne

/-- Each field is found as it is left. -/
theorem map_member?_present {names : List String} {found : List (Option Node)}
    (h : names.Nodup) (hlength : found.length = names.length) :
    (names.map fun name => (Node.record (present names found)).member? name) = found := by
  induction names generalizing found with
  | nil => exact (List.length_eq_zero_iff.mp hlength).symm
  | cons name names ih =>
      obtain ⟨hname, hnames⟩ := List.nodup_cons.mp h
      cases found with
      | nil => cases hlength
      | cons o found =>
          have hrest := ih hnames (Nat.succ.inj hlength)
          cases o with
          | none => rw [present, List.map_cons, member?_present_eq_none hname, hrest]
          | some n =>
              have hother : ∀ other ∈ names,
                  (Node.record ((name, n) :: present names found)).member? other =
                    (Node.record (present names found)).member? other := by
                intro other hmem
                have hne : name ≠ other := fun heq => hname (heq ▸ hmem)
                rw [member?_cons, if_neg hne]
              rw [present, List.map_cons, member?_cons, if_pos rfl, List.map_congr_left hother,
                hrest]

/-! ## Reading a record -/

section Record

variable {kind : RecordKind}

theorem FieldsThinned.length_eq : {fields : List (String × Form)} → {found : List (Option Node)} →
    {legible : Bool} → FieldsThinned kind fields found legible → found.length = fields.length
  | _, _, _, .nil => rfl
  | _, _, _, .cons _ hrest => congrArg Nat.succ hrest.length_eq

/-- A record that lacks a member it needs is not legible. -/
theorem FieldsThinned.eq_false {name : String} (hneeds : kind.Needs name) :
    {fields : List (String × Form)} → {found : List (Option Node)} → {legible : Bool} →
    FieldsThinned kind fields found legible → (name, none) ∈ (fields.map Prod.fst).zip found →
    legible = false
  | _, _, _, .nil, hmem => by cases hmem
  | _, _, _, .cons hfirst hrest, hmem => by
    rw [List.map_cons, List.zip_cons_cons, List.mem_cons] at hmem
    rcases hmem with heq | hmem
    · obtain ⟨rfl, rfl⟩ := Prod.mk.inj heq
      cases hfirst with
      | null hname => exact absurd hname hneeds.1
      | empty hname => exact absurd hname hneeds.2
      | lost _ => exact Bool.false_and _
    · rw [hrest.eq_false hneeds hmem, Bool.and_false]

/-- What is left of a record is found in it, or a member is missing that it needs. -/
theorem FieldsThinned.read? {fields : List (String × Form)} {found : List (Option Node)}
    {legible : Bool} (h : FieldsThinned kind fields found legible)
    (hnames : fields.map Prod.fst = kind.shape.map Prod.fst) :
    kind.shape.read? (.record (present (fields.map Prod.fst) found)) = some found ∨
      kind.shape.read? (.record (present (fields.map Prod.fst) found)) = none ∧
        legible = false := by
  have hdistinct : (fields.map Prod.fst).Nodup := hnames ▸ kind.nodup_shape
  have hfound := map_member?_present hdistinct (by rw [h.length_eq, List.length_map])
  have hread : kind.shape.read? (.record (present (fields.map Prod.fst) found)) = _ :=
    (if_pos (RecordShape.admits_record kind.shape (nodup_present hdistinct))).trans
      (RecordShape.ofMembers_eq _ kind.shape)
  rw [hread]
  by_cases hmissing : ∃ entry ∈ kind.shape, entry.2 = .required ∧
      (Node.record (present (fields.map Prod.fst) found)).member? entry.1 = none
  · rw [if_pos hmissing]
    obtain ⟨entry, hentry, hrequired, hnone⟩ := hmissing
    have hmem : (entry.1, none) ∈ (fields.map Prod.fst).zip found := by
      rw [← hfound, ← List.map_prod_left_eq_zip]
      refine List.mem_map.mpr ⟨entry.1, hnames ▸ List.mem_map_of_mem hentry, ?_⟩
      rw [hnone]
    exact .inr ⟨rfl, h.eq_false ((kind.required_iff entry hentry).mp hrequired) hmem⟩
  · rw [if_neg hmissing]
    rw [hnames, List.map_map] at hfound
    rw [hnames]
    exact .inl (congrArg some hfound)

end Record

/-! ## Reading a form -/

variable {α β : Type} {read inner : Nat → Node → Option α}

/-- The digits in the form are those of a text. Where all its brackets may be opened, what is left
of it is read as the value if it is legible, and is not read otherwise. -/
structure Reads (read : Nat → Node → Option α) (f : Form) (a : α) : Prop where
  wellSpelled : f.node.WellSpelled
  read_eq : ∀ n legible, f.Thinned n legible → ∀ d, f.node.depth ≤ d →
    read d n = if legible then some a else none

/-- What is read after a part of it depends on whether that part is legible. -/
@[simp]
theorem bind_legible (legible : Bool) (a : α) (f : α → Option β) :
    (if legible then some a else none).bind f = if legible then f a else none := by
  cases legible <;> rfl

@[simp]
theorem map_legible (legible : Bool) (a : α) (f : α → β) :
    (if legible then some a else none).map f = if legible then some (f a) else none := by
  cases legible <;> rfl

namespace Reads

variable {f : Form} {a : α}

/-- The whole form is read as the value. -/
theorem stores (h : f.Reads read a) : f.node.Stores read a where
  wellSpelled := h.wellSpelled
  read_eq d hd := h.read_eq f.node true f.thinned_node d hd

theorem plain {n : Node} (h : n.Stores read a) : (Form.plain n).Reads read a where
  wellSpelled := h.wellSpelled
  read_eq := by
    rintro _ _ ⟨⟩ d hd
    exact h.read_eq d hd

theorem map (make : α → β) (h : f.Reads read a) :
    f.Reads (fun d n => (read d n).map make) (make a) where
  wellSpelled := h.wellSpelled
  read_eq n legible hthin d hd := by rw [h.read_eq n legible hthin d hd, map_legible]

/-- The content of a variant is one bracket deeper. -/
theorem variant {name : String} (h : f.Reads inner a)
    (hread : ∀ d n, read (d + 1) (.variant name n) = inner d n) :
    (Form.variant name f).Reads read a where
  wellSpelled := ⟨h.wellSpelled, trivial⟩
  read_eq := by
    rintro _ legible ⟨⟩ d hd
    rename_i n hthin
    obtain ⟨k, rfl, hcontent⟩ := Node.depth_variant_le hd
    rw [hread, h.read_eq n legible hthin k hcontent]

/-- The items of a list are read if all of them are legible. -/
theorem mapM_eq {form : α → Form} {d : Nat} : {as : List α} → {nodes : List Node} →
    {legible : Bool} → AllThinned (as.map form) nodes legible →
    (∀ a ∈ as, (form a).Reads read a) → (∀ a ∈ as, (form a).node.depth ≤ d) →
    nodes.mapM (read d) = if legible then some as else none
  | [], _, _, .nil, _, _ => rfl
  | a :: as, _, _, .cons hitem hrest, h, hd => by
    obtain ⟨ha, has⟩ := List.forall_mem_cons.mp h
    obtain ⟨hda, hdas⟩ := List.forall_mem_cons.mp hd
    simp [List.mapM_cons, ha.read_eq _ _ hitem d hda, mapM_eq hrest has hdas, ite_and]

theorem list {form : α → Form} {as : List α} (h : ∀ a ∈ as, (form a).Reads read a) :
    (Form.list (as.map form)).Reads (listOfNode? read) as where
  wellSpelled := by
    rw [node, nodes_eq_map, Node.WellSpelled, Node.allWellSpelled_iff]
    simpa using fun a ha => (h a ha).wellSpelled
  read_eq := by
    rintro _ legible ⟨⟩ d hd
    rename_i nodes hthin
    obtain ⟨k, rfl, hitems⟩ := Node.depth_array_le hd
    rw [nodes_eq_map, List.forall_mem_map, List.forall_mem_map] at hitems
    exact mapM_eq hthin h hitems

/-- A record is one bracket deeper. It is not read if a member is missing that it needs. -/
theorem record {kind : RecordKind} {fields : List (String × Form)} (shape : RecordShape)
    (hshape : kind.shape = shape) (hnames : fields.map Prod.fst = shape.map Prod.fst)
    (hspelled : ∀ field ∈ fields, field.2.node.WellSpelled)
    (hmissing : ∀ d n, shape.read? n = none → read (d + 1) n = none)
    (hfields : ∀ d n found legible, FieldsThinned kind fields found legible →
      shape.read? n = some found → (∀ field ∈ fields, field.2.node.depth ≤ d) →
      read (d + 1) n = if legible then some a else none) :
    (Form.record kind fields).Reads read a where
  wellSpelled := by
    rw [node, fieldNodes_eq_map]
    exact Node.wellSpelled_record (List.forall_mem_map.mpr hspelled)
  read_eq := by
    subst hshape
    rintro _ legible ⟨⟩ d hd
    rename_i found hthin
    obtain ⟨k, rfl, hdepth⟩ := Node.depth_record_le hd
    rw [fieldNodes_eq_map, List.forall_mem_map] at hdepth
    rcases hthin.read? hnames with hread | ⟨hread, rfl⟩
    · exact hfields k _ found legible hthin hread hdepth
    · exact hmissing k _ hread

end Reads

/-! ## Reading a field -/

section Field

variable {kind : RecordKind} {name : String} {o : Option Node} {legible : Bool} {d : Nat}

theorem FieldThinned.needed {content : Form} {a : α}
    (h : FieldThinned kind name content o legible) (hneeds : kind.Needs name)
    (hcontent : content.Reads read a) (hd : content.node.depth ≤ d) :
    o = none ∧ legible = false ∨
      ∃ n, o = some n ∧ read d n = if legible then some a else none := by
  cases h with
  | kept hthin => exact .inr ⟨_, rfl, hcontent.read_eq _ _ hthin d hd⟩
  | null hname => exact absurd hname hneeds.1
  | empty hname => exact absurd hname hneeds.2
  | lost _ => exact .inl ⟨rfl, rfl⟩
  | nulled hname => exact absurd hname hneeds.2

/-- Nothing is left as null but null. -/
theorem Thinned.eq_plain {f : Form} (h : f.Thinned .null legible) :
    f = Form.plain .null := by
  cases h
  rfl

theorem wellSpelled_option {form : α → Form} {x : Option α}
    (h : ∀ a ∈ x, (form a).Reads read a) : (option form x).node.WellSpelled := by
  cases x with
  | none => trivial
  | some a => exact (h a rfl).wellSpelled

/-- What can be null is read by a reader that does not take null. -/
theorem FieldThinned.field?_eq {form : α → Form} {x : Option α}
    (h : FieldThinned kind name (option form x) o legible) (hname : name ∈ kind.nullable)
    (hform : ∀ a ∈ x, (form a).Reads read a) (hnull : read d .null = none)
    (hd : (option form x).node.depth ≤ d) :
    Node.field? (read d) o = if legible then some x else none := by
  -- The form of a value is not that of null, which the reader would take.
  have hset : ∀ a ∈ x, form a ≠ plain .null := by
    intro a ha heq
    have hread := (hform a ha).stores
    rw [heq] at hread
    cases hnull.symm.trans (hread.read_eq d (Nat.zero_le d))
  generalize hcontent : option form x = content at h hd
  cases h with
  | kept hthin =>
      rename_i n
      cases x with
      | none =>
          obtain rfl : plain .null = content := hcontent
          cases hthin
          rfl
      | some a =>
          obtain rfl : form a = content := hcontent
          have hn : n ≠ .null := fun heq => hset a rfl (heq ▸ hthin).eq_plain
          have hread := (hform a rfl).read_eq n _ hthin d hd
          rw [Node.field?, Node.option?.eq_2 _ _ hn, hread, map_legible]
  | null _ =>
      cases x with
      | none => rfl
      | some a => exact absurd hcontent (hset a rfl)
  | empty hempty => exact absurd hempty (kind.not_mem_emptyable name hname)
  | lost hneeds => exact absurd hname hneeds.1
  | nulled hempty => exact absurd hempty (kind.not_mem_emptyable name hname)

/-- What can be an empty list is not read from null. -/
theorem FieldThinned.listOfField?_eq {form : α → Form} {as : List α}
    (h : FieldThinned kind name (list (as.map form)) o legible) (hname : name ∈ kind.emptyable)
    (hform : ∀ a ∈ as, (form a).Reads read a) (hd : (list (as.map form)).node.depth ≤ d) :
    listOfField? read d o = if legible then some as else none := by
  generalize hcontent : list (as.map form) = content at h
  cases h with
  | kept hthin =>
      subst hcontent
      exact (Reads.list hform).read_eq _ _ hthin d hd
  | null _ => cases hcontent
  | empty _ =>
      rw [list.injEq, List.map_eq_nil_iff] at hcontent
      rw [hcontent]
      rfl
  | lost hneeds => exact absurd hname hneeds.2
  | nulled _ => cases d <;> rfl

end Field

/-! ## Digits -/

mutual

/-- What is left of a node is spelled as it was. -/
theorem Thinned.wellSpelled : {f : Form} → {n : Node} → {legible : Bool} → f.Thinned n legible →
    f.node.WellSpelled → n.WellSpelled
  | _, _, _, .plain _, h => h
  | _, _, _, .list hitems, h => hitems.wellSpelled h
  | _, _, _, .variant hcontent, h => ⟨hcontent.wellSpelled h.1, trivial⟩
  | _, _, _, .record hfields, h => hfields.wellSpelled h

theorem AllThinned.wellSpelled : {items : List Form} → {ns : List Node} → {legible : Bool} →
    AllThinned items ns legible → Node.AllWellSpelled (nodes items) → Node.AllWellSpelled ns
  | _, _, _, .nil, _ => trivial
  | _, _, _, .cons hitem hrest, h => ⟨hitem.wellSpelled h.1, hrest.wellSpelled h.2⟩

theorem FieldsThinned.wellSpelled {kind : RecordKind} : {fields : List (String × Form)} →
    {found : List (Option Node)} → {legible : Bool} → FieldsThinned kind fields found legible →
    (Node.record (fieldNodes fields)).WellSpelled →
    (Node.record (present (fields.map Prod.fst) found)).WellSpelled
  | _, _, _, .nil, _ => trivial
  | _, _, _, .cons (.kept hthin) hrest, h => ⟨hthin.wellSpelled h.1, hrest.wellSpelled h.2⟩
  | _, _, _, .cons (.null _) hrest, h => hrest.wellSpelled h.2
  | _, _, _, .cons (.empty _) hrest, h => hrest.wellSpelled h.2
  | _, _, _, .cons (.lost _) hrest, h => hrest.wellSpelled h.2
  | _, _, _, .cons (.nulled _) hrest, h => ⟨trivial, hrest.wellSpelled h.2⟩

end

end Form

end BoundSql

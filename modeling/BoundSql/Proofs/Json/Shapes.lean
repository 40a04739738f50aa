import BoundSql.Json.Shape
import BoundSql.Proofs.Json.Reading

/-! # Reading the shapes of stored data

A node stores a value if its text is read back and the value is read from it, as long as the
brackets in it may be opened. A variant stores a value when its content does. The members of a
record are found by their names. -/

namespace BoundSql.Json

namespace Node

/-! ## Depth -/

mutual

/-- How many brackets lie in each other at most. -/
def depth : Node → Nat
  | null | bool _ | number _ | string _ => 0
  | array items => itemsDepth items + 1
  | object members => membersDepth members + 1

def itemsDepth : List Node → Nat
  | [] => 0
  | item :: rest => max (depth item) (itemsDepth rest)

def membersDepth : List (Literal × Node) → Nat
  | [] => 0
  | (_, value) :: rest => max (depth value) (membersDepth rest)

end

theorem itemsDepth_le {items : List Node} {d : Nat} :
    itemsDepth items ≤ d ↔ ∀ item ∈ items, item.depth ≤ d := by
  induction items with
  | nil => simp [itemsDepth]
  | cons item rest ih => rw [itemsDepth, Nat.max_le, ih, List.forall_mem_cons]

theorem membersDepth_le {members : List (Literal × Node)} {d : Nat} :
    membersDepth members ≤ d ↔ ∀ m ∈ members, m.2.depth ≤ d := by
  induction members with
  | nil => simp [membersDepth]
  | cons m rest ih => rw [membersDepth, Nat.max_le, ih, List.forall_mem_cons]

variable {d : Nat}

/-- Where a bracket may be opened, one less may be opened in it. -/
theorem exists_of_succ_le {inner : Nat} (h : inner + 1 ≤ d) : ∃ k, d = k + 1 ∧ inner ≤ k :=
  ⟨d - 1, by omega, by omega⟩

theorem depth_array_le {items : List Node} (h : (array items).depth ≤ d) :
    ∃ k, d = k + 1 ∧ ∀ item ∈ items, item.depth ≤ k := by
  obtain ⟨k, rfl, hitems⟩ := exists_of_succ_le h
  exact ⟨k, rfl, itemsDepth_le.mp hitems⟩

theorem depth_object_le {members : List (Literal × Node)} (h : (object members).depth ≤ d) :
    ∃ k, d = k + 1 ∧ ∀ m ∈ members, m.2.depth ≤ k := by
  obtain ⟨k, rfl, hmembers⟩ := exists_of_succ_le h
  exact ⟨k, rfl, membersDepth_le.mp hmembers⟩

theorem depth_record_le {fields : List (String × Node)} (h : (record fields).depth ≤ d) :
    ∃ k, d = k + 1 ∧ ∀ field ∈ fields, field.2.depth ≤ k := by
  obtain ⟨k, rfl, hfields⟩ := depth_object_le h
  exact ⟨k, rfl, fun field hfield => hfields _ (List.mem_map_of_mem hfield)⟩

theorem depth_variant_le {name : String} {content : Node} (h : (variant name content).depth ≤ d) :
    ∃ k, d = k + 1 ∧ content.depth ≤ k := by
  obtain ⟨k, rfl, hcontent⟩ := depth_record_le h
  exact ⟨k, rfl, hcontent (name, content) (List.mem_singleton.mpr rfl)⟩

/-! ## Digits -/

theorem allWellSpelled_iff {items : List Node} :
    AllWellSpelled items ↔ ∀ item ∈ items, item.WellSpelled := by
  induction items with
  | nil => simp [AllWellSpelled]
  | cons item rest ih => simp [AllWellSpelled, ih]

theorem membersWellSpelled_iff {members : List (Literal × Node)} :
    MembersWellSpelled members ↔ ∀ m ∈ members, m.2.WellSpelled := by
  induction members with
  | nil => simp [MembersWellSpelled]
  | cons m rest ih => simp [MembersWellSpelled, ih]

theorem wellSpelled_record {fields : List (String × Node)}
    (h : ∀ field ∈ fields, field.2.WellSpelled) : (record fields).WellSpelled := by
  refine membersWellSpelled_iff.mpr fun m hm => ?_
  obtain ⟨field, hfield, rfl⟩ := List.mem_map.mp hm
  exact h field hfield

@[simp]
theorem wellSpelled_text (s : String) : (text s).WellSpelled :=
  trivial

/-! ## Storing -/

/-- The digits in the node are those of a text, and the node is read as the value wherever all its
brackets may be opened. -/
structure Stores {α : Type} (read : Nat → Node → Option α) (n : Node) (a : α) : Prop where
  wellSpelled : n.WellSpelled
  read_eq : ∀ d, n.depth ≤ d → read d n = some a

namespace Stores

variable {α β : Type} {n : Node} {read inner : Nat → Node → Option α} {a : α}

theorem map (make : α → β) (h : n.Stores read a) :
    n.Stores (fun d n => (read d n).map make) (make a) where
  wellSpelled := h.wellSpelled
  read_eq d hd := by rw [h.read_eq d hd, Option.map_some]

/-- The content of a variant is one bracket deeper. -/
theorem variant {name : String} (h : n.Stores inner a)
    (hread : ∀ d, read (d + 1) (variant name n) = inner d n) :
    (variant name n).Stores read a where
  wellSpelled := ⟨h.wellSpelled, trivial⟩
  read_eq d hd := by
    obtain ⟨k, rfl, hcontent⟩ := depth_variant_le hd
    rw [hread, h.read_eq k hcontent]

theorem text (s : String) : (text s).Stores (fun _ => text?) s :=
  ⟨trivial, fun _ _ => rfl⟩

end Stores

/-- What is read back item by item is read back as a whole. -/
theorem mapM_map_eq_some {α β : Type} {write : α → β} {read : β → Option α} {as : List α}
    (h : ∀ a ∈ as, read (write a) = some a) : (as.map write).mapM read = some as := by
  induction as with
  | nil => rfl
  | cons a as ih =>
      obtain ⟨ha, has⟩ := List.forall_mem_cons.mp h
      simp [List.mapM_cons, ha, ih has]

end Node

namespace RecordShape

/-! ## Records -/

variable {fields : List (String × Node)}

/-- Every key is a text, and none comes twice. -/
theorem admits_record (shape : RecordShape) (hdistinct : (fields.map Prod.fst).Nodup) :
    shape.admits (fields.map fun (name, node) => (some name, node)) = true := by
  induction fields with
  | nil => rfl
  | cons field rest ih =>
      obtain ⟨hnot, hrest⟩ := List.nodup_cons.mp hdistinct
      have hother : (rest.any fun m => some m.1 == some field.1) = false := by
        rw [List.any_eq_false]
        intro m hm
        have hne : m.1 ≠ field.1 := fun heq => hnot (heq ▸ List.mem_map_of_mem hm)
        simpa using hne
      simp only [List.map_cons, admits, ih hrest, List.any_map, Function.comp_def, hother,
        Bool.not_false, Bool.or_true, Bool.and_true]

/-- A record is read if no field is missing that it needs. -/
theorem ofMembers_eq (members : List (String × Node)) (shape : RecordShape) :
    ofMembers (members.map fun (name, node) => (some name, node)) shape =
      if ∃ entry ∈ shape, entry.2 = .required ∧ (Node.record members).member? entry.1 = none
      then none
      else some (shape.map fun entry => (Node.record members).member? entry.1) := by
  induction shape with
  | nil => simp [ofMembers]
  | cons entry shape ih =>
      obtain ⟨name, presence⟩ := entry
      have hmissing : (((Node.record members).member? name).isNone && presence == .required) =
          true ↔ presence = .required ∧ (Node.record members).member? name = none := by
        simp [and_comm]
      rw [ofMembers, ih]
      change (if ((Node.record members).member? name).isNone && presence == .required
        then none else _) = _
      simp only [hmissing, List.mem_cons, exists_eq_or_imp]
      by_cases hhead : presence = .required ∧ (Node.record members).member? name = none
      · rw [if_pos hhead, if_pos (.inl hhead)]
      · rw [if_neg hhead]
        simp only [hhead, false_or]
        split <;> rfl

end RecordShape

end BoundSql.Json

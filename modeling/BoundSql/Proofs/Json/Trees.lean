import BoundSql.Json
import BoundSql.Proofs.Json.Shapes

/-! # Reading JSON values

A JSON value without floating-point numbers is read back. Its members come in the order of their
keys, in which they are put when they are read. Main statement: `Json.stores_node`. -/

namespace BoundSql.Json

namespace Tree

/-! ## Order -/

theorem pairwise_of_ascending {keys : List String} (h : ascending keys = true) :
    keys.Pairwise (· < ·) := by
  induction keys with
  | nil => exact .nil
  | cons a keys ih =>
      cases keys with
      | nil => exact List.pairwise_singleton _ _
      | cons b keys =>
          rw [ascending, Bool.and_eq_true, decide_eq_true_eq] at h
          have hrest := ih h.2
          refine List.pairwise_cons.mpr ⟨fun c hc => ?_, hrest⟩
          rcases List.mem_cons.mp hc with rfl | hmem
          · exact h.1
          · exact String.lt_trans h.1 (List.rel_of_pairwise_cons hrest hmem)

/-- A key above all others comes last. -/
theorem insertMember_eq_append {key : String} {value : Tree} {members : List (String × Tree)}
    (h : ∀ m ∈ members, m.1 < key) :
    insertMember key value members = members ++ [(key, value)] := by
  induction members with
  | nil => rfl
  | cons m rest ih =>
      obtain ⟨hm, hrest⟩ := List.forall_mem_cons.mp h
      have hne : key ≠ m.1 := fun heq => String.lt_irrefl _ (heq ▸ hm)
      rw [insertMember, if_neg (String.lt_asymm hm), if_neg hne, ih hrest, List.cons_append]

mutual

/-- What is in order stays as it is. -/
theorem sorted_of_isOrdered : (t : Tree) → t.isOrdered = true → t.sorted = t
  | null, _ => rfl
  | bool _, _ => rfl
  | number _, _ => rfl
  | string _, _ => rfl
  | array items, h => by
    rw [sorted, sortedItems_of_allOrdered items h]
  | object members, h => by
    obtain ⟨hkeys, hmembers⟩ := Bool.and_eq_true_iff.mp h
    rw [sorted, sortedMembers_of_ordered members [] (pairwise_of_ascending hkeys) hmembers,
      List.nil_append]

theorem sortedItems_of_allOrdered : (items : List Tree) → allOrdered items = true →
    sortedItems items = items
  | [], _ => rfl
  | item :: rest, h => by
    obtain ⟨hitem, hrest⟩ := Bool.and_eq_true_iff.mp h
    rw [sortedItems, sorted_of_isOrdered item hitem, sortedItems_of_allOrdered rest hrest]

theorem sortedMembers_of_ordered : (members done : List (String × Tree)) →
    ((done ++ members).map Prod.fst).Pairwise (· < ·) → membersOrdered members = true →
    sortedMembers done members = done ++ members
  | [], done, _, _ => by rw [sortedMembers, List.append_nil]
  | (key, value) :: rest, done, hkeys, h => by
    obtain ⟨hvalue, hrest⟩ := Bool.and_eq_true_iff.mp h
    have hlast : ∀ m ∈ done, m.1 < key := by
      rw [List.map_append, List.pairwise_append] at hkeys
      exact fun m hm => hkeys.2.2 m.1 (List.mem_map_of_mem hm) key List.mem_cons_self
    -- The member comes last among those that are done, where it already stood.
    rw [List.append_cons] at hkeys ⊢
    rw [sortedMembers, sorted_of_isOrdered value hvalue, insertMember_eq_append hlast,
      sortedMembers_of_ordered rest _ hkeys hrest]

end

end Tree

/-! ## Numbers -/

/-- The number is an integer. -/
def Number.isInteger : Number → Bool
  | integer _ _ => true
  | float _ _ => false

theorem Number.ofNumeral?_numeral {n : Number} (h : n.isInteger = true) :
    ofNumeral? n.numeral = some n := by
  cases n with
  | integer i hrange => rw [numeral, ofNumeral?, Numeral.toInt?_ofInt]; exact dif_pos hrange
  | float x hfinite => cases h

theorem Number.wellSpelled_numeral {n : Number} (h : n.isInteger = true) :
    n.numeral.WellSpelled := by
  cases n with
  | integer i hrange => exact Numeral.wellSpelled_ofInt i
  | float x hfinite => cases h

namespace Tree

mutual

/-- All numbers of the tree are integers. -/
def isIntegral : Tree → Bool
  | null | bool _ | string _ => true
  | number n => n.isInteger
  | array items => allIntegral items
  | object members => membersIntegral members

def allIntegral : List Tree → Bool
  | [] => true
  | item :: rest => isIntegral item && allIntegral rest

def membersIntegral : List (String × Tree) → Bool
  | [] => true
  | (_, value) :: rest => isIntegral value && membersIntegral rest

end

/-! ## Reading -/

theorem itemNodes_eq_map (items : List Tree) : itemNodes items = items.map node := by
  induction items with
  | nil => rfl
  | cons item rest ih => rw [itemNodes, ih, List.map_cons]

theorem memberNodes_eq_map (members : List (String × Tree)) :
    memberNodes members = members.map fun m => (some m.1, m.2.node) := by
  induction members with
  | nil => rfl
  | cons m rest ih => rw [memberNodes, ih, List.map_cons]

theorem stores_array {items : List Tree} (h : ∀ item ∈ items, item.node.Stores ofNode? item) :
    (array items).node.Stores ofNode? (array items) := by
  rw [node, itemNodes_eq_map]
  refine ⟨Node.allWellSpelled_iff.mpr (List.forall_mem_map.mpr fun item hitem =>
    (h item hitem).wellSpelled), fun d hd => ?_⟩
  obtain ⟨k, rfl, hdepth⟩ := Node.depth_array_le hd
  rw [ofNode?, Node.mapM_map_eq_some fun item hitem =>
    (h item hitem).read_eq k (hdepth _ (List.mem_map_of_mem hitem)), Option.map_some]

theorem stores_object {members : List (String × Tree)}
    (h : ∀ m ∈ members, m.2.node.Stores ofNode? m.2) :
    (object members).node.Stores ofNode? (object members) := by
  rw [node, memberNodes_eq_map]
  refine ⟨Node.membersWellSpelled_iff.mpr (List.forall_mem_map.mpr fun m hm =>
    (h m hm).wellSpelled), fun d hd => ?_⟩
  obtain ⟨k, rfl, hdepth⟩ := Node.depth_object_le hd
  have hread : ∀ m ∈ members, ((some m.1 : Literal).bind fun key =>
      (ofNode? k m.2.node).map fun value => (key, value)) = some m := by
    intro m hm
    rw [(h m hm).read_eq k (hdepth _ (List.mem_map_of_mem hm))]
    rfl
  rw [ofNode?, Node.mapM_map_eq_some hread, Option.map_some]

mutual

/-- A tree without floating-point numbers is read back. -/
theorem stores_node : (t : Tree) → t.isIntegral = true → t.node.Stores ofNode? t
  | null, _ => ⟨trivial, fun d _ => by cases d <;> rfl⟩
  | bool _, _ => ⟨trivial, fun d _ => by cases d <;> rfl⟩
  | number n, h => by
    refine ⟨Number.wellSpelled_numeral h, fun d _ => ?_⟩
    have hnumber := Number.ofNumeral?_numeral h
    cases d <;> simp [node, ofNode?, ofScalar?, hnumber]
  | string _, _ => ⟨trivial, fun d _ => by cases d <;> rfl⟩
  | array items, h => stores_array (stores_items items h)
  | object members, h => stores_object (stores_members members h)

theorem stores_items : (items : List Tree) → allIntegral items = true →
    ∀ item ∈ items, item.node.Stores ofNode? item
  | [], _ => nofun
  | item :: rest, h =>
    have ⟨hitem, hrest⟩ := Bool.and_eq_true_iff.mp h
    List.forall_mem_cons.mpr ⟨stores_node item hitem, stores_items rest hrest⟩

theorem stores_members : (members : List (String × Tree)) → membersIntegral members = true →
    ∀ m ∈ members, m.2.node.Stores ofNode? m.2
  | [], _ => nofun
  | (_, value) :: rest, h =>
    have ⟨hvalue, hrest⟩ := Bool.and_eq_true_iff.mp h
    List.forall_mem_cons.mpr ⟨stores_node value hvalue, stores_members rest hrest⟩

end

end Tree

/-- A JSON value without floating-point numbers is read back. -/
theorem stores_node {j : Json} (h : j.tree.isIntegral = true) : j.node.Stores ofNode? j := by
  obtain ⟨tree, ordered⟩ := j
  have htree := (tree.stores_node h).map ofTree
  rwa [show ofTree tree = ⟨tree, ordered⟩ by simp [ofTree, tree.sorted_of_isOrdered ordered]]
    at htree

end BoundSql.Json

import BoundSql.Json.Float

/-! # Trees of JSON values

In an ordered tree every object lists its members by key, every key once. Main statement:
`Tree.sorted` makes any tree ordered, the last of several members with one key being kept. -/

namespace BoundSql.Json

/-- A number: an integer of at most 64 bits, with or without a sign, or a finite number. -/
inductive Number where
  | integer (n : Int) (inRange : Int64.minValue.toInt ≤ n ∧ n < UInt64.size)
  | float (x : Binary64) (finite : x.isFinite = true)

namespace Number

/-- Whether two numbers are equal. An integer and a floating-point number never are. -/
def same : Number → Number → Bool
  | integer n _, integer m _ => n == m
  | float x _, float y _ => x == y
  | _, _ => false

/-- The number of a numeral. What is not an integer of 64 bits becomes a floating-point number,
unless it is too large. -/
def ofNumeral? (n : Numeral) : Option Number :=
  match n.toInt? with
  | some i =>
    if h : Int64.minValue.toInt ≤ i ∧ i < UInt64.size then some (integer i h) else float?
  | none => float?
where
  float? : Option Number :=
    match n.toBinary64? with
    | some x => if h : x.isFinite = true then some (float x h) else none
    | none => none

def numeral : Number → Numeral
  | integer n _ => .ofInt n
  | float x _ => .ofFinite x

end Number

/-- A tree of JSON values. -/
inductive Tree where
  | null
  | bool (b : Bool)
  | number (n : Number)
  | string (s : String)
  | array (items : List Tree)
  | object (members : List (String × Tree))

/-- Every key is below the next one. -/
def ascending : List String → Bool
  | a :: b :: rest => decide (a < b) && ascending (b :: rest)
  | _ => true

namespace Tree

mutual

/-- In every object the keys ascend. -/
def isOrdered : Tree → Bool
  | array items => allOrdered items
  | object members => ascending (members.map Prod.fst) && membersOrdered members
  | _ => true

def allOrdered : List Tree → Bool
  | [] => true
  | item :: rest => isOrdered item && allOrdered rest

def membersOrdered : List (String × Tree) → Bool
  | [] => true
  | (_, value) :: rest => isOrdered value && membersOrdered rest

end

/-- Ascending members with one more, which takes the place of a member with its key. -/
def insertMember (key : String) (value : Tree) : List (String × Tree) → List (String × Tree)
  | [] => [(key, value)]
  | (k, v) :: rest =>
    if key < k then (key, value) :: (k, v) :: rest
    else if key = k then (key, value) :: rest
    else (k, v) :: insertMember key value rest

mutual

/-- The tree with the members of its objects in order. -/
def sorted : Tree → Tree
  | array items => array (sortedItems items)
  | object members => object (sortedMembers [] members)
  | other => other

def sortedItems : List Tree → List Tree
  | [] => []
  | item :: rest => sorted item :: sortedItems rest

def sortedMembers (done : List (String × Tree)) : List (String × Tree) → List (String × Tree)
  | [] => done
  | (key, value) :: rest => sortedMembers (insertMember key (sorted value) done) rest

end

mutual

/-- Whether two trees are equal, numbers by their value. -/
def same : Tree → Tree → Bool
  | null, null => true
  | bool a, bool b => a == b
  | number a, number b => a.same b
  | string a, string b => a == b
  | array as, array bs => sameItems as bs
  | object as, object bs => sameMembers as bs
  | _, _ => false

def sameItems : List Tree → List Tree → Bool
  | [], [] => true
  | a :: as, b :: bs => same a b && sameItems as bs
  | _, _ => false

def sameMembers : List (String × Tree) → List (String × Tree) → Bool
  | [], [] => true
  | (k, a) :: as, (l, b) :: bs => k == l && same a b && sameMembers as bs
  | _, _ => false

end

/-! ## Order -/

theorem ascending_insertMember (key : String) (value : Tree) (members : List (String × Tree))
    (h : ascending (members.map Prod.fst) = true) :
    ascending ((insertMember key value members).map Prod.fst) = true := by
  induction members with
  | nil => rfl
  | cons m rest ih =>
    obtain ⟨k, v⟩ := m
    simp only [insertMember]
    split
    case isTrue hlt => simpa [ascending, hlt] using h
    case isFalse hlt =>
      split
      case isTrue heq => subst heq; simpa using h
      case isFalse hne =>
        have hk : k < key := by
          rcases Decidable.em (k < key) with hk | hk
          · exact hk
          · exact absurd (String.le_antisymm hk hlt) hne
        cases rest with
        | nil => simp [insertMember, ascending, hk]
        | cons m' rest' =>
          obtain ⟨k', v'⟩ := m'
          simp only [List.map_cons, ascending, Bool.and_eq_true, decide_eq_true_eq] at h
          have ih' := ih (by simpa using h.2)
          simp only [insertMember] at ih' ⊢
          split
          case isTrue hlt' =>
            simp only [hlt', if_true] at ih'
            simpa [ascending, hk] using ih'
          case isFalse hlt' =>
            simp only [hlt', if_false] at ih'
            split
            case isTrue heq' =>
              simp only [heq', if_true] at ih'
              subst heq'
              simpa [ascending, hk] using ih'
            case isFalse hne' =>
              simp only [hne', if_false] at ih'
              simpa [ascending, h.1] using ih'

theorem membersOrdered_insertMember (key : String) (value : Tree)
    (members : List (String × Tree)) (hv : value.isOrdered = true)
    (h : membersOrdered members = true) :
    membersOrdered (insertMember key value members) = true := by
  induction members with
  | nil => simp [insertMember, membersOrdered, hv]
  | cons m rest ih =>
    obtain ⟨k, v⟩ := m
    simp only [membersOrdered, Bool.and_eq_true] at h
    simp only [insertMember]
    split
    · simp [membersOrdered, hv, h.1, h.2]
    · split
      · simp [membersOrdered, hv, h.2]
      · simp [membersOrdered, h.1, ih h.2]

mutual

theorem isOrdered_sorted : (t : Tree) → t.sorted.isOrdered = true
  | array items => by simpa [sorted, isOrdered] using allOrdered_sortedItems items
  | object members => by
    simpa [sorted, isOrdered] using
      ordered_sortedMembers [] members (by simp [ascending]) (by simp [membersOrdered])
  | null => rfl
  | bool _ => rfl
  | number _ => rfl
  | string _ => rfl

theorem allOrdered_sortedItems : (items : List Tree) → allOrdered (sortedItems items) = true
  | [] => rfl
  | item :: rest => by
    simp [sortedItems, allOrdered, isOrdered_sorted item, allOrdered_sortedItems rest]

theorem ordered_sortedMembers (done : List (String × Tree)) :
    (members : List (String × Tree)) → ascending (done.map Prod.fst) = true →
      membersOrdered done = true →
      ascending ((sortedMembers done members).map Prod.fst) = true ∧
        membersOrdered (sortedMembers done members) = true
  | [], ha, hm => by simp [sortedMembers, ha, hm]
  | (key, value) :: rest, ha, hm => by
    simpa only [sortedMembers] using
      ordered_sortedMembers (insertMember key value.sorted done) rest
        (ascending_insertMember key value.sorted done ha)
        (membersOrdered_insertMember key value.sorted done (isOrdered_sorted value) hm)

end

end Tree

end BoundSql.Json

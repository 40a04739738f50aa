import BoundSql.Json.Node
import BoundSql.Json.Tree

/-! # JSON values

A JSON value is an ordered tree. Any tree has a value. -/

namespace BoundSql

/-- A JSON value. -/
structure Json where
  tree : Json.Tree
  ordered : tree.isOrdered = true

namespace Json

/-- The value of a tree. -/
def ofTree (t : Tree) : Json :=
  ⟨t.sorted, t.isOrdered_sorted⟩

instance : BEq Json := ⟨fun a b => a.tree.same b.tree⟩

/-! ## Text -/

mutual

/-- The node of a tree. -/
def Tree.node : Tree → Node
  | null => .null
  | bool b => .bool b
  | number n => .number n.numeral
  | string s => .text s
  | array items => .array (itemNodes items)
  | object members => .object (memberNodes members)

def Tree.itemNodes : List Tree → List Node
  | [] => []
  | item :: rest => Tree.node item :: Tree.itemNodes rest

def Tree.memberNodes : List (String × Tree) → List (Literal × Node)
  | [] => []
  | (key, value) :: rest => (some key, Tree.node value) :: Tree.memberNodes rest

end

/-- The tree of a node that is not a container. -/
def Tree.ofScalar? : Node → Option Tree
  | .null => some null
  | .bool b => some (bool b)
  | .number n => (Number.ofNumeral? n).map number
  | .string s => s.map string
  | _ => none

/-- The tree of a node whose containers lie at most `depth` deep in each other. -/
def Tree.ofNode? : Nat → Node → Option Tree
  | depth + 1, .array items => (items.mapM (Tree.ofNode? depth)).map array
  | depth + 1, .object members =>
    (members.mapM fun (m : Literal × Node) => m.1.bind fun key =>
      (Tree.ofNode? depth m.2).map fun value => (key, value)).map object
  | _, node => Tree.ofScalar? node

/-- The node of a value. -/
def node (j : Json) : Node :=
  j.tree.node

/-- The value of a node whose containers lie at most `depth` deep in each other. -/
def ofNode? (depth : Nat) (node : Node) : Option Json :=
  (Tree.ofNode? depth node).map ofTree

end Json

end BoundSql

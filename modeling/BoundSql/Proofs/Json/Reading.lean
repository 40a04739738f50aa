import BoundSql.Json.Reader
import BoundSql.Proofs.Json.Lexing

/-! # Reading JSON text

What is written is read back, with the digits of its numbers, the order of its members and members
that come twice. Main statement: `Node.read_chars`. -/

namespace BoundSql.Json

namespace Node

/-! ## Lexemes of a node -/

mutual

/-- The lexemes of a node. -/
def lexemes : Node → List Lexeme
  | null => [.null]
  | bool b => [.bool b]
  | number n => [.number n]
  | string s => [.string s]
  | array items => .openArray :: (itemLexemes items ++ [.closeArray])
  | object members => .openObject :: (memberLexemes members ++ [.closeObject])

/-- The lexemes of the items of an array. -/
def itemLexemes : List Node → List Lexeme
  | [] => []
  | [item] => lexemes item
  | item :: rest => lexemes item ++ .comma :: itemLexemes rest

/-- The lexemes of the members of an object. -/
def memberLexemes : List (Literal × Node) → List Lexeme
  | [] => []
  | [(key, value)] => .string key :: .colon :: lexemes value
  | (key, value) :: rest =>
    .string key :: .colon :: (lexemes value ++ .comma :: memberLexemes rest)

end

mutual

/-- The numbers in a node have the digits that a text can give. -/
def WellSpelled : Node → Prop
  | null | bool _ | string _ => True
  | number n => n.WellSpelled
  | array items => AllWellSpelled items
  | object members => MembersWellSpelled members

def AllWellSpelled : List Node → Prop
  | [] => True
  | item :: rest => WellSpelled item ∧ AllWellSpelled rest

def MembersWellSpelled : List (Literal × Node) → Prop
  | [] => True
  | (_, value) :: rest => WellSpelled value ∧ MembersWellSpelled rest

end

open Lexeme in
mutual

/-- The text of a node is that of its lexemes. -/
theorem spells_lexemes : (n : Node) → n.WellSpelled → Spells n.chars n.lexemes
  | null, _ => .single .null trivial
  | bool true, _ => .single (.bool true) trivial
  | bool false, _ => .single (.bool false) trivial
  | number n, h => .single (.number n) h
  | string s, _ => .single (.string s) trivial
  | array items, h =>
    .mark .openArray rfl (.append (spells_itemLexemes items h) .closeArray rfl .nil)
  | object members, h =>
    .mark .openObject rfl (.append (spells_memberLexemes members h) .closeObject rfl .nil)

theorem spells_itemLexemes : (items : List Node) → AllWellSpelled items →
    Spells (itemChars items) (itemLexemes items)
  | [], _ => .nil
  | [item], h => spells_lexemes item h.1
  | item :: next :: rest, h =>
    .append (spells_lexemes item h.1) .comma rfl (spells_itemLexemes (next :: rest) h.2)

theorem spells_memberLexemes : (members : List (Literal × Node)) → MembersWellSpelled members →
    Spells (memberChars members) (memberLexemes members)
  | [], _ => .nil
  | [(key, value)], h =>
    .append (.single (.string key) trivial) .colon rfl (spells_lexemes value h.1)
  | (key, value) :: next :: rest, h =>
    .append (.single (.string key) trivial) .colon rfl
      (.append (spells_lexemes value h.1) .comma rfl (spells_memberLexemes (next :: rest) h.2))

end

/-- No value starts with the end of an array. -/
theorem itemLexemes_eq_cons (item : Node) (rest : List Node) :
    ∃ l ls, itemLexemes (item :: rest) = l :: ls ∧ l ≠ .closeArray := by
  have hitem : ∃ l ls, item.lexemes = l :: ls ∧ l ≠ .closeArray := by
    cases item <;> exact ⟨_, _, rfl, nofun⟩
  obtain ⟨l, ls, hlexemes, hl⟩ := hitem
  cases rest with
  | nil => exact ⟨l, ls, hlexemes, hl⟩
  | cons item' rest =>
      exact ⟨l, ls ++ .comma :: itemLexemes (item' :: rest), by simp [itemLexemes, hlexemes], hl⟩

end Node

namespace Reader

open Node

/-! ## Running the reader -/

theorem run_cons (r : Reader) (l : Lexeme) (ls : List Lexeme) :
    r.run (l :: ls) = (r.step l).bind fun r' => r'.run ls :=
  List.foldlM_cons

theorem run_append {r r' : Reader} {ls : List Lexeme} (h : r.run ls = some r')
    (ms : List Lexeme) : r.run (ls ++ ms) = r'.run ms := by
  unfold run at h ⊢
  rw [List.foldlM_append, h]
  rfl

/-- The first item of an array is read as any other value. -/
theorem run_firstItem (item : Node) (rest : List Node) (opened : List Frame) :
    (firstItem opened).run (itemLexemes (item :: rest)) =
      (value opened).run (itemLexemes (item :: rest)) := by
  obtain ⟨l, ls, hlexemes, hl⟩ := itemLexemes_eq_cons item rest
  rw [hlexemes, run_cons, run_cons]
  cases l with
  | closeArray => exact absurd rfl hl
  | _ => rfl

/-- The first key of an object is read as any other key. -/
theorem run_firstKey (m : Literal × Node) (rest : List (Literal × Node)) (opened : List Frame) :
    (firstKey opened).run (memberLexemes (m :: rest)) =
      (key opened).run (memberLexemes (m :: rest)) := by
  cases rest <;> rfl

-- The containers that are open around a node stay as they are while it is read, so that the
-- induction on the node is for all of them at once.
mutual

/-- A node is read from its lexemes. -/
theorem run_lexemes : (n : Node) → (opened : List Frame) →
    (value opened).run n.lexemes = some (complete n opened)
  | .null, _ => rfl
  | .bool _, _ => rfl
  | .number _, _ => rfl
  | .string _, _ => rfl
  | .array [], _ => rfl
  | .array (item :: rest), opened => by
    have hitems := run_itemLexemes (item :: rest) [] opened nofun
    rw [← run_firstItem] at hitems
    have hclose := run_append hitems [.closeArray]
    rw [List.append_nil] at hclose
    rw [lexemes]
    exact hclose.trans (by simp [run, step, close])
  | .object [], _ => rfl
  | .object (m :: rest), opened => by
    have hmembers := run_memberLexemes (m :: rest) [] opened nofun
    rw [← run_firstKey] at hmembers
    have hclose := run_append hmembers [.closeObject]
    rw [List.append_nil] at hclose
    rw [lexemes]
    exact hclose.trans (by simp [run, step, close])

/-- The items of an array are read one after the other. -/
theorem run_itemLexemes : (items done : List Node) → (opened : List Frame) → items ≠ [] →
    (value (.array done :: opened)).run (itemLexemes items) =
      some (next (.array (items.reverse ++ done) :: opened))
  | [], _, _, h => absurd rfl h
  | [item], done, opened, _ => run_lexemes item (.array done :: opened)
  | item :: item' :: rest, done, opened, _ => by
    have hitem := run_lexemes item (.array done :: opened)
    have hrest := run_itemLexemes (item' :: rest) (item :: done) opened nofun
    exact (run_append hitem (.comma :: itemLexemes (item' :: rest))).trans (hrest.trans (by simp))

/-- The members of an object are read one after the other. -/
theorem run_memberLexemes : (members done : List (Literal × Node)) → (opened : List Frame) →
    members ≠ [] →
    (key (.object done :: opened)).run (memberLexemes members) =
      some (next (.object (members.reverse ++ done) :: opened))
  | [], _, _, h => absurd rfl h
  | [(label, node)], done, opened, _ => run_lexemes node (.member done label :: opened)
  | (label, node) :: m :: rest, done, opened, _ => by
    have hvalue := run_lexemes node (.member done label :: opened)
    have hrest := run_memberLexemes (m :: rest) ((label, node) :: done) opened nofun
    exact (run_append hvalue (.comma :: memberLexemes (m :: rest))).trans (hrest.trans (by simp))

end

end Reader

/-- What is written is read back. -/
theorem Node.read_chars {n : Node} (h : n.WellSpelled) : Node.read n.chars = some n := by
  have hlexemes := (n.spells_lexemes h).ofChars
  have hrun := Reader.run_lexemes n []
  rw [read, hlexemes, Option.bind_eq_bind, Option.bind_some, hrun]
  rfl

end BoundSql.Json

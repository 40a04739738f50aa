import BoundSql.Proofs.Lowering.Written

/-! # Clauses written step by step

A clause that is written item by item is the clause of its items. What writers put around others
and between them is what pieces have there. -/

namespace BoundSql.Clause

variable {placeholder : String} {d : Dialect}

@[simp] theorem append_empty (c : Clause) : c.append empty = c := by
  simp [append, empty]

@[simp] theorem empty_append (c : Clause) : empty.append c = c := by
  simp [append, empty]

theorem append_assoc (c other last : Clause) :
    (c.append other).append last = c.append (other.append last) := by
  simp [append]

theorem ofPieces_cons (piece : Piece) (rest : List Piece) :
    ofPieces d (piece :: rest) = (ofPieces d [piece]).append (ofPieces d rest) :=
  ofPieces_append d [piece] rest

theorem keyword_eq (word : String) : keyword word = ofPieces d [.word word] :=
  rfl

/-- A marker and its value come together. -/
theorem bind_eq (c : Clause) (value : Value) :
    c.bind placeholder value = c.append (ofItems placeholder [.slot value]) :=
  rfl

theorem push_eq (c : Clause) (t : Token) :
    c.push t = c.append (ofItems placeholder [.token t]) := by
  simp [push, append, ofItems, Item.toToken, Item.value?]

namespace Writer

/-- Writes an item: the token at it, or the marker for the value at it. -/
def item (placeholder : String) : Item → Writer
  | .token t => change (push · t)
  | .slot value => change (bind · placeholder value)

/-- Writes items one by one. -/
def items (placeholder : String) (items : List Item) : Writer :=
  items.forM (item placeholder)

/-- The writer does not fail, and it adds a clause to the one it writes on. -/
def Adds (writer : Writer) (added : Clause) : Prop :=
  ∀ c, writer.writeOn c = (.ok (), c.append added)

/-- The second writer goes on where the first has stopped, unless the first has failed. -/
theorem writeOn_bind (writer : Writer) (next : Unit → Writer) (c : Clause) :
    writeOn c (writer >>= next) =
      match writeOn c writer with
      | (.ok (), written) => writeOn written (next ())
      | (.error e, written) => (.error e, written) := by
  simp only [writeOn, ExceptT.run_bind, StateT.run_bind]
  rcases writer.run.run c with ⟨_ | _, written⟩ <;> rfl

theorem adds_pure : Adds (pure ()) empty := fun c => by
  rw [append_empty]
  rfl

theorem Adds.bind {writer : Writer} {next : Unit → Writer} {added behind : Clause}
    (h : writer.Adds added) (hnext : (next ()).Adds behind) :
    Adds (writer >>= next) (added.append behind) := by
  intro c
  rw [writeOn_bind, h c]
  exact (hnext _).trans (by rw [append_assoc])

theorem adds_push (word : String) : Adds (change (push · (.text word))) (ofPieces d [.word word]) :=
  fun c => congrArg (Prod.mk _) (push_eq c (.text word))

theorem adds_item (i : Item) : (item placeholder i).Adds (ofItems placeholder [i]) := by
  intro c
  cases i with
  | token t => exact congrArg (Prod.mk _) (push_eq c t)
  | slot value => exact congrArg (Prod.mk _) (bind_eq c value)

/-- Items that are written one by one give their clause. -/
theorem adds_items (placeholder : String) (all : List Item) :
    (items placeholder all).Adds (ofItems placeholder all) := by
  induction all with
  | nil => exact adds_pure
  | cons i rest ih =>
      rw [← List.singleton_append, ofItems_append]
      exact (adds_item i).bind ih

/-- Brackets around what is written are those around pieces. -/
theorem Adds.bracketed {body : Writer} {pieces : List Piece}
    (h : body.Adds (ofPieces d pieces)) :
    (bracketed body).Adds (ofPieces d (Piece.bracketed pieces)) := by
  rw [Piece.bracketed, ofPieces_cons, ofPieces_append]
  exact (adds_push "(").bind (h.bind (adds_push ")"))

section

variable {α : Type} {emit : α → Writer} {part : α → List Piece}

theorem adds_afterSeparator (h : ∀ a, (emit a).Adds (ofPieces d (part a))) (word : String)
    (as : List α) :
    (afterSeparator word emit as).Adds
      (ofPieces d (as.flatMap fun a => .word word :: part a)) := by
  induction as with
  | nil => exact adds_pure
  | cons a rest ih =>
      rw [List.flatMap_cons, List.cons_append, ofPieces_cons, ofPieces_append]
      exact (adds_push word).bind ((h a).bind ih)

/-- Separators between what is written are those between parts. -/
theorem adds_separated (h : ∀ a, (emit a).Adds (ofPieces d (part a))) (word : String)
    (as : List α) :
    (separated word emit as).Adds (ofPieces d (Piece.separated word (as.map part))) := by
  cases as with
  | nil => exact adds_pure
  | cons a rest =>
      rw [List.map_cons, Piece.separated_cons, List.flatMap_map, ofPieces_append]
      exact (h a).bind (adds_afterSeparator h word rest)

end

end Writer

end BoundSql.Clause

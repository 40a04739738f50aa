import BoundSql.Clause

/-! # Pieces as they are written

A dialect writes pieces one after the other, so that the tokens and the arguments of a statement
follow from those of its parts. -/

namespace BoundSql.Piece

/-- The tokens of pieces in a dialect. -/
def tokens (d : Dialect) (pieces : List Piece) : List Token :=
  (Clause.ofPieces d pieces).tokens

/-- The values that pieces bind, in the order of their markers. -/
def args (d : Dialect) (pieces : List Piece) : List Value :=
  (Clause.ofPieces d pieces).args

variable (d : Dialect)

/-! ## Separators -/

@[simp] theorem separated_singleton (word : String) (part : List Piece) :
    separated word [part] = part := by
  simp [separated, List.intercalate]

@[simp] theorem separated_cons_cons (word : String) (part next : List Piece)
    (rest : List (List Piece)) :
    separated word (part :: next :: rest) =
      part ++ .word word :: separated word (next :: rest) := by
  simp [separated, List.intercalate]

/-- Every part but the first has the word before it. -/
theorem separated_cons (word : String) (part : List Piece) (rest : List (List Piece)) :
    separated word (part :: rest) = part ++ rest.flatMap (.word word :: ·) := by
  induction rest generalizing part with
  | nil => simp
  | cons next rest ih => rw [separated_cons_cons, ih, List.flatMap_cons, List.cons_append]

/-! ## Tokens -/

@[simp] theorem tokens_nil : tokens d [] = [] :=
  rfl

theorem tokens_cons (piece : Piece) (rest : List Piece) :
    tokens d (piece :: rest) =
      (items d piece).map (Item.toToken d.placeholder) ++ tokens d rest := by
  simp [tokens, Clause.ofPieces, Clause.ofItems, allItems]

theorem mem_tokens {pieces : List Piece} {token : Token} :
    token ∈ tokens d pieces ↔
      ∃ piece ∈ pieces, token ∈ (items d piece).map (Item.toToken d.placeholder) := by
  induction pieces with
  | nil => simp
  | cons piece rest ih => simp [tokens_cons, ih]

@[simp] theorem tokens_append (left right : List Piece) :
    tokens d (left ++ right) = tokens d left ++ tokens d right := by
  simp [tokens, Clause.ofPieces, Clause.ofItems]

@[simp] theorem tokens_word_cons (word : String) (rest : List Piece) :
    tokens d (.word word :: rest) = .text word :: tokens d rest := by
  simp [tokens_cons, items, Item.toToken]

@[simp] theorem tokens_bracketed (body : List Piece) :
    tokens d (bracketed body) = .text "(" :: (tokens d body ++ [.text ")"]) := by
  simp [bracketed]

/-- A nested statement is written between brackets. -/
@[simp] theorem tokens_nested_cons (body rest : List Piece) :
    tokens d (.nested body :: rest) = tokens d (bracketed body) ++ tokens d rest := by
  rw [tokens_cons, items_nested]
  rfl

theorem tokens_separated (word : String) (parts : List (List Piece)) :
    tokens d (separated word parts) = [Token.text word].intercalate (parts.map (tokens d)) := by
  induction parts with
  | nil => rfl
  | cons part rest ih =>
      cases rest with
      | nil => simp [List.intercalate]
      | cons next rest =>
          rw [separated_cons_cons, tokens_append, tokens_word_cons, ih]
          simp [List.intercalate]

/-! ## Arguments -/

@[simp] theorem args_nil : args d [] = [] :=
  rfl

theorem args_cons (piece : Piece) (rest : List Piece) :
    args d (piece :: rest) = (items d piece).filterMap Item.value? ++ args d rest := by
  simp [args, Clause.ofPieces, Clause.ofItems, allItems]

@[simp] theorem args_append (left right : List Piece) :
    args d (left ++ right) = args d left ++ args d right := by
  simp [args, Clause.ofPieces, Clause.ofItems]

@[simp] theorem args_word_cons (word : String) (rest : List Piece) :
    args d (.word word :: rest) = args d rest := by
  simp [args_cons, items, Item.value?]

@[simp] theorem args_slot_cons (value : Value) (rest : List Piece) :
    args d (.slot value :: rest) = value :: args d rest := by
  simp [args_cons, items, Item.value?]

@[simp] theorem args_bracketed (body : List Piece) : args d (bracketed body) = args d body := by
  simp [bracketed]

/-- Separators bind nothing. -/
@[simp] theorem args_separated (word : String) (parts : List (List Piece)) :
    args d (separated word parts) = parts.flatMap (args d) := by
  induction parts with
  | nil => rfl
  | cons part rest ih =>
      cases rest with
      | nil => simp
      | cons next rest =>
          rw [separated_cons_cons, args_append, args_word_cons, ih]
          rfl

/-- A nested statement binds what its pieces bind. -/
@[simp] theorem args_nested_cons (body rest : List Piece) :
    args d (.nested body :: rest) = args d body ++ args d rest := by
  rw [args_cons, items_nested]
  exact congrArg (· ++ args d rest) (args_bracketed d body)

end BoundSql.Piece

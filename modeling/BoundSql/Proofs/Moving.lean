import BoundSql.Proofs.Lowering.Parametric

/-! # Later in the supply

A query that is compiled later in the supply is the same statement with every alias moved by as
many draws, or it fails with the same error. -/

namespace BoundSql

/-! ## Moved aliases -/

namespace Alias

theorem toNat_letter (a : Alias) : a.letter.toNat = 'a'.toNat + a.position % 26 := by
  have hletters : ∀ i : Fin 26, (Char.ofNat ('a'.toNat + i)).toNat = 'a'.toNat + i := by decide
  exact hletters ⟨a.position % 26, Nat.mod_lt _ (by decide)⟩

/-- Aliases at one place of the alphabet are those with one letter. -/
theorem letter_inj {a b : Alias} : a.letter = b.letter ↔ a.position % 26 = b.position % 26 := by
  constructor
  · intro h
    have hcodes := congrArg Char.toNat h
    rw [toNat_letter, toNat_letter] at hcodes
    exact Nat.add_left_cancel hcodes
  · intro h
    rw [letter, letter, h]

/-- The alias that is drawn `n` draws later. -/
def move (n : Nat) (a : Alias) : Alias :=
  ⟨a.position + n⟩

/-- The letters go around. -/
theorem letter_move (n : Nat) (a : Alias) :
    (a.move n).letter = Char.ofNat ('a'.toNat + (a.letter.toNat - 'a'.toNat + n) % 26) := by
  have hplace : (a.position + n) % 26 = (a.letter.toNat - 'a'.toNat + n) % 26 := by
    rw [toNat_letter, Nat.add_sub_cancel_left, Nat.mod_add_mod]
  rw [letter, move, hplace]

end Alias

namespace Piece

mutual

/-- The piece with every alias moved. -/
def move (n : Nat) : Piece → Piece
  | word text => word text
  | call function => call function
  | slot value => slot value
  | table t => table t
  | source t a => source t (a.move n)
  | target a => target (a.move n)
  | column a own => column (a.move n) own
  | name own => name own
  | proposed own => proposed own
  | nested body => nested (moveAll n body)
termination_by structural x => x

def moveAll (n : Nat) : List Piece → List Piece
  | [] => []
  | piece :: rest => move n piece :: moveAll n rest
termination_by structural x => x

end

theorem moveAll_append (n : Nat) (left right : List Piece) :
    moveAll n (left ++ right) = moveAll n left ++ moveAll n right := by
  induction left with
  | nil => rfl
  | cons piece rest ih => simp [moveAll, ih]

end Piece

/-! ## Compiles that start later -/

/-- The second compile draws every alias `n` draws later. -/
def Likeness.later (n : Nat) : Likeness where
  words := Eq
  aliases a b := b = a.move n
  values := Eq
  supplies first second := second = first.skip n
  words_refl _ := rfl
  aliases_next h := h ▸ rfl
  supplies_next {first second} h := by
    subst h
    simp [AliasSupply.next, AliasSupply.skip, Nat.add_right_comm]

theorem Piece.Alike.moveAll_eq {n : Nat} {pieces other : List Piece}
    (h : Piece.Alike (.later n) pieces other) : other = moveAll n pieces := by
  induction h with
  | nil => rfl
  | word h | call h | slot h | target h => cases h; rfl
  | source t h => cases h; rfl
  | column h own => cases h; rfl
  | table t | name own | proposed own => rfl
  | nested h ih => rw [ih]; rfl
  | append hleft hright ihLeft ihRight => rw [moveAll_append, ihLeft, ihRight]

/-- A query that starts `n` draws later has its aliases moved, and it ends `n` draws later. -/
theorem Compile.query_moved (v : Vocabulary) (q : Query) (supply : AliasSupply) (n : Nat) :
    ((query v q).runFrom (supply.skip n)).2 = ((query v q).runFrom supply).2.skip n ∧
      Agrees (fun pieces other => other = Piece.moveAll n pieces)
        ((query v q).runFrom supply).1 ((query v q).runFrom (supply.skip n)).1 := by
  have halike : q.Alike (Likeness.later n).values q := .refl (fun _ => rfl) q
  obtain ⟨hafter, hpieces⟩ := query_alike (.refl (.later n) v) q halike supply _ rfl
  exact ⟨hafter, hpieces.mono Piece.Alike.moveAll_eq⟩

end BoundSql

import BoundSql.Proofs.Lowering.Statement
import BoundSql.Proofs.Lowering.Written

/-! # Pieces within a scope

A piece is within a scope if it names tables and aliases of the scope and no others. -/

namespace BoundSql

/-- The tables of a scope with their aliases, in the order in which these were drawn. -/
def Scope.references (s : Scope) : List (Table × Alias) :=
  (s.table, s.mainAlias) :: (s.join.map fun (join, a) => (join.table, a)).toList

namespace Piece

/-- The piece names tables and aliases of the scope only, and it is no nested statement. -/
def Within (s : Scope) : Piece → Prop
  | word _ => True
  | call _ => True
  | slot _ => True
  | table t => t = s.table
  | source t a => (t, a) ∈ s.references
  | target a => a = s.mainAlias
  | column a _ => a ∈ s.references.map Prod.snd
  | name _ => True
  | proposed _ => True
  | nested _ => False

/-- All the pieces are within the scope. -/
def AllWithin (s : Scope) (pieces : List Piece) : Prop :=
  ∀ piece ∈ pieces, piece.Within s

variable {s : Scope} {piece : Piece} {left right body rest : List Piece}

theorem allWithin_nil : AllWithin s [] := by
  simp [AllWithin]

theorem AllWithin.cons (hpiece : piece.Within s) (hrest : AllWithin s rest) :
    AllWithin s (piece :: rest) :=
  List.forall_mem_cons.mpr ⟨hpiece, hrest⟩

theorem AllWithin.word_cons (text : String) (hrest : AllWithin s rest) :
    AllWithin s (.word text :: rest) :=
  .cons trivial hrest

theorem AllWithin.append (hleft : AllWithin s left) (hright : AllWithin s right) :
    AllWithin s (left ++ right) :=
  List.forall_mem_append.mpr ⟨hleft, hright⟩

theorem AllWithin.bracketed (h : AllWithin s body) : AllWithin s (bracketed body) :=
  .word_cons "(" (h.append (.word_cons ")" allWithin_nil))

end Piece

namespace Scope

variable (s : Scope)

theorem mainAlias_mem : s.mainAlias ∈ s.references.map Prod.snd := by
  simp [references]

theorem mem_references_of_join {join : Join} {a : Alias} (h : s.join = some (join, a)) :
    (join.table, a) ∈ s.references := by
  simp [references, h]

theorem source_within : Piece.Within s (.source s.table s.mainAlias) := by
  simp [Piece.Within, references]

theorem mainColumn_within (name : String) : (s.mainColumn name).Within s :=
  s.mainAlias_mem

theorem resolve_within (name : String) : (s.resolve name).Within s := by
  unfold resolve
  split
  · rename_i join a hjoin
    split
    · exact List.mem_map_of_mem (s.mem_references_of_join hjoin)
    · exact s.mainColumn_within name
  · exact s.mainColumn_within name

end Scope

end BoundSql

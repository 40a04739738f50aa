/-! # Table aliases

The tables of a statement and of the statements nested in it take their aliases from one supply,
which goes through the letters `a` to `z` again and again. -/

namespace BoundSql

/-- An alias, known by its position in the supply. -/
structure Alias where
  position : Nat
  deriving DecidableEq

namespace Alias

/-- The letter of the alias. -/
def letter (a : Alias) : Char :=
  Char.ofNat ('a'.toNat + a.position % 26)

/-- The alias as it is written. -/
def name (a : Alias) : String :=
  String.ofList [a.letter]

end Alias

/-- How many aliases have been drawn. -/
structure AliasSupply where
  issued : Nat := 0
  deriving DecidableEq

namespace AliasSupply

/-- The next alias, and the supply after it. -/
def next (supply : AliasSupply) : Alias × AliasSupply :=
  (⟨supply.issued⟩, ⟨supply.issued + 1⟩)

/-- The supply after `count` more aliases. -/
def skip (supply : AliasSupply) (count : Nat) : AliasSupply :=
  ⟨supply.issued + count⟩

/-- The next `count` aliases, and the supply after them. -/
def take (supply : AliasSupply) (count : Nat) : List Alias × AliasSupply :=
  ((List.range' supply.issued count).map Alias.mk, supply.skip count)

end AliasSupply

end BoundSql

/-! # Powers of two and of ten -/

namespace BoundSql

/-- Two to the power of `e`. -/
abbrev twoTo (e : Nat) : Nat :=
  Nat.pow 2 e

/-- Ten to the power of `e`. -/
abbrev tenTo (e : Nat) : Nat :=
  Nat.pow 10 e

end BoundSql

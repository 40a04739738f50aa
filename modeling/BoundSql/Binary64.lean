import BoundSql.Power

/-! # Binary floating-point numbers

A number is the 64 bits of its interchange form. Arithmetic is exact on ratios of natural
numbers, and rounds once, to the nearest number and in a tie to the even one. -/

namespace BoundSql

/-- A binary64 number, known by its bits: a sign, eleven bits of exponent and 52 of fraction. -/
structure Binary64 where
  bits : UInt64
  deriving DecidableEq

/-- A binary32 number, known by its bits: a sign, eight bits of exponent and 23 of fraction. -/
structure Binary32 where
  bits : UInt32
  deriving DecidableEq

namespace Binary64

/-- The sign bit is set. -/
def isNegative (x : Binary64) : Bool :=
  twoTo 63 ≤ x.bits.toNat

/-- The eleven bits after the sign. -/
def exponentField (x : Binary64) : Nat :=
  x.bits.toNat / twoTo 52 % twoTo 11

/-- The last 52 bits. -/
def fractionField (x : Binary64) : Nat :=
  x.bits.toNat % twoTo 52

/-- The number is neither infinite nor a NaN. -/
def isFinite (x : Binary64) : Bool :=
  x.exponentField < 2047

def isNaN (x : Binary64) : Bool :=
  x.exponentField == 2047 && x.fractionField != 0

/-- The number is zero, of either sign. -/
def isZero (x : Binary64) : Bool :=
  x.exponentField == 0 && x.fractionField == 0

/-- Numerical equality: a NaN differs from everything, and the zeros are equal. -/
def same (x y : Binary64) : Bool :=
  !x.isNaN && !y.isNaN && (x.bits == y.bits || x.isZero && y.isZero)

instance : BEq Binary64 := ⟨same⟩

/-! ## Value

The size of a finite number is `significand * 2 ^ scale`. -/

def significand (x : Binary64) : Nat :=
  if x.exponentField = 0 then x.fractionField else twoTo 52 + x.fractionField

def scale (x : Binary64) : Int :=
  if x.exponentField = 0 then -1074 else (x.exponentField : Int) - 1075

/-- The size of a finite number is `numerator / denominator`. -/
def numerator (x : Binary64) : Nat :=
  x.significand * twoTo x.scale.toNat

def denominator (x : Binary64) : Nat :=
  twoTo (-x.scale).toNat

/-! ## Rounding -/

/-- The number with the given sign and the other 63 bits. -/
def ofParts (negative : Bool) (rest : Nat) : Binary64 :=
  ⟨UInt64.ofNat ((if negative then twoTo 63 else 0) + rest)⟩

def zero : Binary64 :=
  ofParts false 0

def infinity : Binary64 :=
  ofParts false (2047 * twoTo 52)

/-- A quotient rounded to the nearest natural number, in a tie to the even one. -/
def divideToEven (num den : Nat) : Nat :=
  let q := num / den
  let r := num % den
  if 2 * r < den then q
  else if 2 * r = den then q + q % 2
  else q + 1

/-- The exponent of the power of two below a positive quotient. -/
def floorLog2 (num den : Nat) : Int :=
  let guess : Int := (Nat.log2 num : Int) - Nat.log2 den
  if den * twoTo guess.toNat ≤ num * twoTo (-guess).toNat then guess else guess - 1

/-- The sizes of the numbers are counted without a gap: the one with significand `m` and scale
`q` has the place `(q + 1074) * 2 ^ 52 + m`, and the place past the last is that of infinity. -/
def place (m : Nat) (q : Int) : Nat :=
  (q + 1074).toNat * twoTo 52 + m

/-- The number nearest to `num / den`. -/
def ofRatio (negative : Bool) (num den : Nat) : Binary64 :=
  if num = 0 then ofParts negative 0
  else
    let q : Int := max (floorLog2 num den - 52) (-1074)
    let m := divideToEven (num * twoTo (-q).toNat) (den * twoTo q.toNat)
    ofParts negative (min (place m q) (2047 * twoTo 52))

/-- The number nearest to a natural number. -/
def ofNat (n : Nat) : Binary64 :=
  ofRatio false n 1

/-- The number nearest to an integer. -/
def ofInt (n : Int) : Binary64 :=
  ofRatio (n < 0) n.natAbs 1

/-! ## Arithmetic on finite numbers -/

def neg (x : Binary64) : Binary64 :=
  ofParts (!x.isNegative) (x.bits.toNat % twoTo 63)

def mul (x y : Binary64) : Binary64 :=
  ofRatio (x.isNegative != y.isNegative) (x.numerator * y.numerator)
    (x.denominator * y.denominator)

/-- The quotient of a number and one that is not zero. -/
def div (x y : Binary64) : Binary64 :=
  ofRatio (x.isNegative != y.isNegative) (x.numerator * y.denominator)
    (x.denominator * y.numerator)

/-! ## Widening -/

/-- The number with the value of a binary32 number. A NaN keeps its payload and turns quiet. -/
def ofBinary32 (bits : UInt32) : Binary64 :=
  let n := bits.toNat
  let negative : Bool := twoTo 31 ≤ n
  let exponent := n / twoTo 23 % twoTo 8
  let fraction := n % twoTo 23
  if exponent = 255 then
    let quiet := if fraction = 0 then 0 else twoTo 51
    ofParts negative (2047 * twoTo 52 + (fraction * twoTo 29 ||| quiet))
  else if exponent = 0 then ofRatio negative fraction (twoTo 149)
  else ofRatio negative ((twoTo 23 + fraction) * twoTo exponent) (twoTo 150)

end Binary64

end BoundSql

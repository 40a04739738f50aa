import BoundSql.Binary64.Shortest
import BoundSql.Json.Numeral

/-! # Floating-point numbers in JSON text -/

namespace BoundSql.Json

open Text

/-! ## Writing

The digits are those of the shortest decimal. With its first digit at `10 ^ e` a number is
written in full for `e` from -5 to 15, always with a point; otherwise with an exponent. -/

def firstPlainExponent : Int := -5

def lastPlainExponent : Int := 15

/-- The numeral `digits * 10 ^ k` written in full. -/
def Numeral.plain (negative : Bool) (digits : List Char) (k : Int) : Numeral :=
  if 0 ≤ k then ⟨negative, digits ++ List.replicate k.toNat '0', ['0'], none⟩
  else
    let places := (-k).toNat
    if places < digits.length then
      let split := digits.length - places
      ⟨negative, digits.take split, digits.drop split, none⟩
    else ⟨negative, ['0'], List.replicate (places - digits.length) '0' ++ digits, none⟩

/-- The numeral with its point after the first digit and the exponent `e`. -/
def Numeral.scientific (negative : Bool) (digits : List Char) (e : Int) : Numeral :=
  ⟨negative, digits.take 1, digits.drop 1, some e⟩

/-- The numeral of a finite number. -/
def Numeral.ofFinite (x : Binary64) : Numeral :=
  let (c, k) := x.shortest
  let digits := decimalDigits c
  let e : Int := k + digits.length - 1
  if firstPlainExponent ≤ e ∧ e ≤ lastPlainExponent then plain x.isNegative digits k
  else scientific x.isNegative digits e

/-! ## Reading

The digits are collected in a word of 64 bits, and what does not fit is left out. The word is
rounded to a number, and this is scaled by powers of ten that are themselves rounded, so that
the last bit can differ from that of the nearest number. -/

/-- A decimal `significand * 10 ^ exponent` that is being read. -/
structure Decimal where
  significand : Nat := 0
  exponent : Int := 0

namespace Decimal

/-- The largest significand. -/
def limit : Nat := UInt64.size - 1

def append (significand : Nat) (digit : Char) : Nat :=
  significand * 10 + (digit.toNat - '0'.toNat)

/-- The decimal after digits before the point. From the first digit on that does not fit, a
digit only counts as a place. -/
def takeWhole (d : Decimal) : List Char → Decimal
  | [] => d
  | digit :: rest =>
    if append d.significand digit ≤ limit then
      takeWhole { d with significand := append d.significand digit } rest
    else { d with exponent := d.exponent + (rest.length + 1) }

/-- The decimal after digits behind the point. From the first digit on that does not fit, the
digits are left out. -/
def takeFraction (d : Decimal) : List Char → Decimal
  | [] => d
  | digit :: rest =>
    if append d.significand digit ≤ limit then
      takeFraction ⟨append d.significand digit, d.exponent - 1⟩ rest
    else d

/-- The decimal of a numeral, without its sign. -/
def ofNumeral (n : Numeral) : Decimal :=
  let d := (takeWhole {} n.whole).takeFraction n.fraction
  { d with exponent := d.exponent + n.exponent.getD 0 }

/-- The largest exponent of a power of ten that is a finite number. -/
def maxPower : Nat := 308

def powerOfTen (e : Nat) : Binary64 :=
  .ofNat (tenTo e)

/-- The number divided by the largest power of ten up to `steps` times, until it is zero. -/
def shrink : Nat → Binary64 → Binary64
  | 0, x => x
  | steps + 1, x => if x.isZero then x else shrink steps (x.div (powerOfTen maxPower))

/-- The number that a decimal stands for, unless it is too large. -/
def toBinary64? (d : Decimal) : Option Binary64 :=
  let x := Binary64.ofNat d.significand
  if 0 ≤ d.exponent then
    if d.exponent ≤ maxPower then
      let y := x.mul (powerOfTen d.exponent.toNat)
      if y.isFinite then some y else none
    else if x.isZero then some x
    else none
  else
    let places := (-d.exponent).toNat
    let steps := (places - 1) / maxPower
    some ((shrink steps x).div (powerOfTen (places - steps * maxPower)))

end Decimal

/-- The number that a numeral stands for, unless it is too large. An integer within the range of
64 bits is rounded to the nearest number. -/
def Numeral.toBinary64? (n : Numeral) : Option Binary64 :=
  (Decimal.ofNumeral n).toBinary64?.map fun x => if n.negative then x.neg else x

end BoundSql.Json

import BoundSql.Text.Digits

/-! # Numbers as they are written -/

namespace BoundSql.Json

open Text

/-- A number as a text gives it: the digits before the point, the digits after it, and the
exponent. -/
structure Numeral where
  negative : Bool
  whole : List Char
  fraction : List Char := []
  exponent : Option Int := none
  deriving DecidableEq

namespace Numeral

/-- The numeral of an integer. -/
def ofInt (n : Int) : Numeral where
  negative := decide (n < 0)
  whole := decimalDigits n.natAbs

/-- The numeral has neither a fraction nor an exponent. -/
def isWhole (n : Numeral) : Bool :=
  n.fraction.isEmpty && n.exponent.isNone

/-- The integer of a numeral without fraction and exponent. A zero with a minus sign is not an
integer. -/
def toInt? (n : Numeral) : Option Int :=
  if !n.isWhole then none
  else
    match n.negative, decimalValue n.whole with
    | false, value => some value
    | true, 0 => none
    | true, value => some (-value)

theorem toInt?_ofInt (n : Int) : (ofInt n).toInt? = some n := by
  simp only [toInt?, isWhole, ofInt, List.isEmpty_nil, Option.isNone_none, Bool.and_self,
    Bool.not_true, Bool.false_eq_true, if_false, decimalValue_decimalDigits]
  by_cases h : n < 0
  · obtain ⟨k, hk⟩ : ∃ k, n.natAbs = k + 1 := ⟨n.natAbs - 1, by omega⟩
    simp only [h, decide_true, hk]
    rw [Option.some.injEq]
    omega
  · simp only [h, decide_false, Option.some.injEq]
    omega

/-! ## Writing -/

def exponentChars : Option Int → List Char
  | none => []
  | some e => 'e' :: (if e < 0 then '-' else '+') :: decimalDigits e.natAbs

def fractionChars : List Char → List Char
  | [] => []
  | digits => '.' :: digits

/-- The text of a numeral. -/
def chars (n : Numeral) : List Char :=
  (if n.negative then ['-'] else []) ++ n.whole ++ fractionChars n.fraction ++
    exponentChars n.exponent

/-! ## Reading -/

/-- Digits without a needless zero before them. -/
def scanWhole : List Char → Option (List Char × List Char)
  | '0' :: rest => some (['0'], rest)
  | cs =>
    match spanDigits cs with
    | ([], _) => none
    | found => some found

/-- A point and digits, or nothing. -/
def scanFraction : List Char → Option (List Char × List Char)
  | '.' :: rest =>
    match spanDigits rest with
    | ([], _) => none
    | found => some found
  | cs => some ([], cs)

/-- The digits of an exponent. -/
def scanPower (negative : Bool) (cs : List Char) : Option (Option Int × List Char) :=
  match spanDigits cs with
  | ([], _) => none
  | (digits, rest) =>
    let size : Int := decimalValue digits
    some (some (if negative then -size else size), rest)

/-- A letter e, a sign or none, and digits; or nothing. -/
def scanExponent : List Char → Option (Option Int × List Char)
  | c :: rest =>
    if c = 'e' ∨ c = 'E' then
      match rest with
      | '-' :: digits => scanPower true digits
      | '+' :: digits => scanPower false digits
      | digits => scanPower false digits
    else some (none, c :: rest)
  | [] => some (none, [])

/-- The number without its sign that a text starts with. -/
def scanUnsigned (negative : Bool) (cs : List Char) : Option (Numeral × List Char) := do
  let (whole, afterWhole) ← scanWhole cs
  let (fraction, afterFraction) ← scanFraction afterWhole
  let (exponent, rest) ← scanExponent afterFraction
  return (⟨negative, whole, fraction, exponent⟩, rest)

/-- The number that a text starts with, and the text after it. -/
def scan : List Char → Option (Numeral × List Char)
  | '-' :: rest => scanUnsigned true rest
  | cs => scanUnsigned false cs

end Numeral

end BoundSql.Json

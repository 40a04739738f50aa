import BoundSql.Power
import BoundSql.Text.Blank
import BoundSql.Text.Digits
import BoundSql.Timestamp

/-! # Timestamps as text

The form is `2024-01-02T03:04:05.5`. When it is read, blanks may stand before every number,
before every mark between two numbers and at the end, and leading zeros may be missing. -/

namespace BoundSql.Timestamp

open Text

/-! ## Writing -/

/-- A year from 0 to 9999 has four digits, any other a sign and at least four. -/
def yearChars (year : Int) : List Char :=
  let digits := paddedDigits 4 year.natAbs
  if year < 0 then '-' :: digits
  else if year ≤ 9999 then digits
  else '+' :: digits

/-- A fraction of a second has no, three, six or nine digits, the fewest that lose nothing. -/
def fractionChars (nanosecond : Nat) : List Char :=
  if nanosecond = 0 then []
  else if nanosecond % tenTo 6 = 0 then '.' :: paddedDigits 3 (nanosecond / tenTo 6)
  else if nanosecond % tenTo 3 = 0 then '.' :: paddedDigits 6 (nanosecond / tenTo 3)
  else '.' :: paddedDigits 9 nanosecond

/-- The characters of a timestamp. -/
def chars (t : Timestamp) : List Char :=
  yearChars t.year ++ '-' :: (paddedDigits 2 t.month ++ '-' :: (paddedDigits 2 t.day ++
    'T' :: (paddedDigits 2 t.hour ++ ':' :: (paddedDigits 2 t.minute ++
      ':' :: (paddedDigits 2 t.second ++ fractionChars t.nanosecond)))))

/-- The text of a timestamp. -/
def render (t : Timestamp) : String :=
  String.ofList t.chars

/-! ## Reading -/

/-- A number of at least one and at most `width` digits, and the text after it. -/
def scanDigits (width : Nat) (cs : List Char) : Option (Nat × List Char) :=
  match (cs.takeWhile Char.isDigit).take width with
  | [] => none
  | digits => some (decimalValue digits, cs.drop digits.length)

/-- A number of one or two digits after blanks. -/
def scanPair (cs : List Char) : Option (Nat × List Char) :=
  scanDigits 2 (skipBlanks cs)

/-- A year after blanks: up to four digits, or a sign and any number of digits. -/
def scanYear (cs : List Char) : Option (Int × List Char) :=
  match skipBlanks cs with
  | '-' :: rest => (scanDigits rest.length rest).map fun (n, after) => (-(n : Int), after)
  | '+' :: rest => (scanDigits rest.length rest).map fun (n, after) => ((n : Int), after)
  | cs => (scanDigits 4 cs).map fun (n, after) => ((n : Int), after)

/-- The text after blanks and a mark. -/
def scanMark (mark : Char) (cs : List Char) : Option (List Char) :=
  match skipBlanks cs with
  | c :: rest => if c = mark then some rest else none
  | [] => none

/-- A point and digits, of which the first nine count; or nothing. -/
def scanFraction : List Char → Option (Nat × List Char)
  | '.' :: rest =>
    match spanDigits rest with
    | ([], _) => none
    | (digits, after) =>
      let kept := digits.take 9
      some (decimalValue kept * tenTo (9 - kept.length), after)
  | cs => some (0, cs)

/-- The timestamp that a text gives. -/
def ofChars? (cs : List Char) : Option Timestamp := do
  let (year, cs) ← scanYear cs
  let cs ← scanMark '-' cs
  let (month, cs) ← scanPair cs
  let cs ← scanMark '-' cs
  let (day, cs) ← scanPair cs
  let cs ← scanMark 'T' cs
  let (hour, cs) ← scanPair cs
  let cs ← scanMark ':' cs
  let (minute, cs) ← scanPair cs
  let cs ← scanMark ':' cs
  let (second, cs) ← scanPair cs
  let (nanosecond, cs) ← scanFraction cs
  if allBlank cs then ofParts? year month day hour minute second nanosecond else none

/-- The timestamp that a text gives. -/
def ofString? (s : String) : Option Timestamp :=
  ofChars? s.toList

end BoundSql.Timestamp

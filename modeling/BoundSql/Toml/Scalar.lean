import BoundSql.Power
import BoundSql.Timestamp
import BoundSql.Toml.Lexical

/-! # Numbers, truth values and dates of TOML

They are checked and passed over: each scanner returns the text after what it has recognised. -/

namespace BoundSql.Toml

open Text

/-! ## Digits -/

/-- Digits after a first one, with single underscores between digits, and the text after them. -/
def scanMoreDigits (isDigit : Char → Bool) : List Char → Option (List Char × List Char)
  | '_' :: c :: rest =>
    if isDigit c then do
      let (digits, after) ← scanMoreDigits isDigit rest
      return (c :: digits, after)
    else none
  | c :: rest =>
    if isDigit c then do
      let (digits, after) ← scanMoreDigits isDigit rest
      return (c :: digits, after)
    else if c = '_' then none
    else some ([], c :: rest)
  | [] => some ([], [])

/-- One digit or more with single underscores between digits, and the text after them. -/
def scanDigits (isDigit : Char → Bool) : List Char → Option (List Char × List Char)
  | c :: rest =>
    if isDigit c then do
      let (digits, after) ← scanMoreDigits isDigit rest
      return (c :: digits, after)
    else none
  | [] => none

/-- Digits without a needless zero before them. -/
def scanWhole : List Char → Option (List Char × List Char)
  | '0' :: rest => some (['0'], rest)
  | cs => scanDigits Char.isDigit cs

/-- A sign or none: whether it is a minus, and the text after it. -/
def scanSign : List Char → Bool × List Char
  | '-' :: rest => (true, rest)
  | '+' :: rest => (false, rest)
  | cs => (false, cs)

/-! ## Integers -/

/-- The number is an integer of 64 bits with a sign. -/
def isInteger (n : Int) : Bool :=
  Int64.minValue.toInt ≤ n && n ≤ Int64.maxValue.toInt

/-- Digits of a base after its mark, as an integer. -/
def afterBased? (base : Nat) (cs : List Char) : Option (List Char) := do
  let isDigit := fun c => (hexValue? c).any (· < base)
  let (digits, after) ← scanDigits isDigit cs
  let value := digits.foldl (fun n c => n * base + (hexValue? c).getD 0) 0
  if isInteger value then some after else none

/-- The text after an integer. -/
def afterInteger? : List Char → Option (List Char)
  | '0' :: 'x' :: rest => afterBased? 16 rest
  | '0' :: 'o' :: rest => afterBased? 8 rest
  | '0' :: 'b' :: rest => afterBased? 2 rest
  | cs => do
    let (negative, unsigned) := scanSign cs
    let (digits, after) ← scanWhole unsigned
    let size : Int := decimalValue digits
    if isInteger (if negative then -size else size) then some after else none

/-! ## Floating-point numbers -/

/-- The largest number is below this one, and what lies halfway to the power of two after it is
too large. -/
def overflowBound : Nat := twoTo 1024 - twoTo 970

/-- The decimal `n * 10 ^ e` is too large for a number. -/
def overflows (n : Nat) (e : Int) : Bool :=
  let size := (decimalDigits n).length + e
  if n = 0 ∨ size < 309 then false
  else if 309 < size then true
  else overflowBound * tenTo (-e).toNat ≤ n * tenTo e.toNat

/-- The exponent that a text starts with, if it does. -/
def scanExponent : List Char → Option (Option Int × List Char)
  | c :: rest =>
    if c = 'e' ∨ c = 'E' then do
      let (negative, unsigned) := scanSign rest
      let (digits, after) ← scanDigits Char.isDigit unsigned
      let size : Int := decimalValue digits
      return (some (if negative then -size else size), after)
    else some (none, c :: rest)
  | [] => some (none, [])

/-- The text after digits with a fraction, an exponent or both. A number that is too large is
refused unless it is negative. -/
def afterDecimal? (cs : List Char) : Option (List Char) := do
  let (negative, unsigned) := scanSign cs
  let (whole, afterWhole) ← scanWhole unsigned
  let (fraction, afterFraction) ←
    match afterWhole with
    | '.' :: rest => scanDigits Char.isDigit rest
    | rest => some ([], rest)
  let (exponent, after) ← scanExponent afterFraction
  if fraction.isEmpty && exponent.isNone then none
  else if !negative &&
      overflows (decimalValue (whole ++ fraction)) (exponent.getD 0 - fraction.length) then none
  else some after

/-- The text after the name of an infinity or of a NaN. -/
def afterSpecial? (cs : List Char) : Option (List Char) :=
  let unsigned := (scanSign cs).2
  ['i', 'n', 'f'].isPrefixOf? unsigned <|> ['n', 'a', 'n'].isPrefixOf? unsigned

/-! ## Dates and times -/

/-- A number of exactly `width` digits, and the text after it. -/
def scanFixed (width : Nat) (cs : List Char) : Option (Nat × List Char) :=
  let digits := cs.take width
  if digits.length = width && digits.all Char.isDigit then
    some (decimalValue digits, cs.drop width)
  else none

/-- The text after a mark. -/
def afterMark? (mark : Char) : List Char → Option (List Char)
  | c :: rest => if c = mark then some rest else none
  | [] => none

/-- The text after a day of the calendar. -/
def afterDate? (cs : List Char) : Option (List Char) := do
  let (year, cs) ← scanFixed 4 cs
  let cs ← afterMark? '-' cs
  let (month, cs) ← scanFixed 2 cs
  let cs ← afterMark? '-' cs
  let (day, cs) ← scanFixed 2 cs
  if Calendar.isDate year month day then some cs else none

/-- The text after the fraction of a second, if there is one. -/
def afterFraction : List Char → List Char
  | '.' :: c :: rest =>
    if c.isDigit then rest.dropWhile Char.isDigit else '.' :: c :: rest
  | cs => cs

/-- The text after a time of day. -/
def afterTime? (cs : List Char) : Option (List Char) := do
  let (hour, cs) ← scanFixed 2 cs
  let cs ← afterMark? ':' cs
  let (minute, cs) ← scanFixed 2 cs
  let cs ← afterMark? ':' cs
  let (second, cs) ← scanFixed 2 cs
  if Calendar.isTime hour minute second 0 then some (afterFraction cs) else none

/-- The text after hours and minutes between two clocks. -/
def afterHourMinute? (cs : List Char) : Option (List Char) := do
  let (hour, cs) ← scanFixed 2 cs
  let cs ← afterMark? ':' cs
  let (minute, cs) ← scanFixed 2 cs
  if hour < 24 && minute < 60 then some cs else none

/-- The text after the offset of a time zone, if there is one. -/
def afterOffset (cs : List Char) : List Char :=
  match cs with
  | c :: rest =>
    if c = 'Z' ∨ c = 'z' then rest
    else if c = '+' ∨ c = '-' then (afterHourMinute? rest).getD cs
    else cs
  | [] => []

/-- The text after a date, a time, or both with or without a time zone. -/
def afterMoment? (cs : List Char) : Option (List Char) :=
  match afterDate? cs with
  | none => afterTime? cs
  | some (c :: rest) =>
    if c = 'T' ∨ c = 't' ∨ c = ' ' then
      match afterTime? rest with
      | some after => some (afterOffset after)
      | none => some (c :: rest)
    else some (c :: rest)
  | some [] => some []

/-! ## All of them -/

/-- The text after a scalar that is not a string. -/
def afterScalar? (cs : List Char) : Option (List Char) :=
  afterMoment? cs <|> afterDecimal? cs <|> afterSpecial? cs <|> afterInteger? cs <|>
    ['t', 'r', 'u', 'e'].isPrefixOf? cs <|> ['f', 'a', 'l', 's', 'e'].isPrefixOf? cs

end BoundSql.Toml

import BoundSql.Json.Node

/-! # Lexemes of JSON text -/

namespace BoundSql.Json

open Text

/-- The smallest parts of a JSON text that mean something. -/
inductive Lexeme where
  | openArray | closeArray | openObject | closeObject | comma | colon
  | null
  | bool (b : Bool)
  | number (n : Numeral)
  | string (s : Literal)
  deriving DecidableEq

namespace Lexeme

/-! ## Strings -/

/-- The character that a one-letter escape stands for. -/
def escaped? : Char → Option Char
  | '"' => some '"'
  | '\\' => some '\\'
  | '/' => some '/'
  | 'b' => some '\x08'
  | 'f' => some '\x0c'
  | 'n' => some '\n'
  | 'r' => some '\r'
  | 't' => some '\t'
  | _ => none

/-- The code units of a string up to its closing quote, and the text after the quote. Escapes of
four hexadecimal digits may name surrogates; control characters may not stand in a string. -/
def scanUnits : List Char → Option (List Nat × List Char)
  | '"' :: rest => some ([], rest)
  | '\\' :: 'u' :: a :: b :: c :: d :: rest => do
    let unit ← hexNumber? [a, b, c, d]
    let (units, after) ← scanUnits rest
    return (unit :: units, after)
  | '\\' :: e :: rest => do
    let c ← escaped? e
    let (units, after) ← scanUnits rest
    return (c.toNat :: units, after)
  | c :: rest =>
    if c.toNat < 0x20 then none
    else do
      let (units, after) ← scanUnits rest
      return (c.toNat :: units, after)
  | [] => none

def isHighSurrogate (unit : Nat) : Bool :=
  0xD800 ≤ unit && unit < 0xDC00

def isLowSurrogate (unit : Nat) : Bool :=
  0xDC00 ≤ unit && unit < 0xE000

/-- The code point of a surrogate pair. -/
def pairValue (high low : Nat) : Nat :=
  0x10000 + (high - 0xD800) * 0x400 + (low - 0xDC00)

/-- The characters that code units stand for, surrogates joined in pairs. -/
def decodeUnits : List Nat → Option (List Char)
  | [] => some []
  | unit :: rest =>
    if isLowSurrogate unit then none
    else if isHighSurrogate unit then
      match rest with
      | low :: after =>
        if isLowSurrogate low then
          (decodeUnits after).map (Char.ofNat (pairValue unit low) :: ·)
        else none
      | [] => none
    else (decodeUnits rest).map (Char.ofNat unit :: ·)

/-- The string that follows an opening quote, and the text after it. -/
def scanString (cs : List Char) : Option (Literal × List Char) :=
  (scanUnits cs).map fun (units, rest) => ((decodeUnits units).map String.ofList, rest)

/-! ## Lexemes -/

/-- The blanks that JSON allows between lexemes. -/
def isSeparator (c : Char) : Bool :=
  c == ' ' || c == '\t' || c == '\n' || c == '\r'

/-- The lexeme that a text starts with, and the text after it. -/
def scan : List Char → Option (Lexeme × List Char)
  | '[' :: rest => some (openArray, rest)
  | ']' :: rest => some (closeArray, rest)
  | '\x7b' :: rest => some (openObject, rest)
  | '\x7d' :: rest => some (closeObject, rest)
  | ',' :: rest => some (comma, rest)
  | ':' :: rest => some (colon, rest)
  | '"' :: rest => (scanString rest).map fun (s, after) => (string s, after)
  | 'n' :: rest => (['u', 'l', 'l'].isPrefixOf? rest).map fun after => (null, after)
  | 't' :: rest => (['r', 'u', 'e'].isPrefixOf? rest).map fun after => (bool true, after)
  | 'f' :: rest => (['a', 'l', 's', 'e'].isPrefixOf? rest).map fun after => (bool false, after)
  | cs => (Numeral.scan cs).map fun (n, after) => (number n, after)

/-- The lexemes of a text, at most `fuel` of them. -/
def scanAll : Nat → List Char → Option (List Lexeme)
  | 0, _ => none
  | fuel + 1, cs =>
    match cs.dropWhile isSeparator with
    | [] => some []
    | c :: rest => do
      let (lexeme, after) ← scan (c :: rest)
      let lexemes ← scanAll fuel after
      return lexeme :: lexemes

/-- The lexemes of a text. Every lexeme has a character, so that their number is bounded by the
length of the text. -/
def ofChars (cs : List Char) : Option (List Lexeme) :=
  scanAll (cs.length + 1) cs

end Lexeme

end BoundSql.Json

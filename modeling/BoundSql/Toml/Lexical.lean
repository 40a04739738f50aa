import BoundSql.Text.Digits

/-! # Blanks, comments, strings and keys of TOML -/

namespace BoundSql.Toml

open Text

/-! ## Blanks and lines -/

def isInlineBlank (c : Char) : Bool :=
  c == ' ' || c == '\t'

/-- A character that may stand in a comment: a tab or any that is not a control character of
ASCII. -/
def isPrintable (c : Char) : Bool :=
  c == '\t' || (0x20 ≤ c.toNat && c.toNat != 0x7F)

def skipInlineBlanks (cs : List Char) : List Char :=
  cs.dropWhile isInlineBlank

/-- The text after a line break, which is a line feed with or without a carriage return. -/
def afterBreak? : List Char → Option (List Char)
  | '\n' :: rest => some rest
  | '\r' :: '\n' :: rest => some rest
  | _ => none

/-- The text after a comment, if there is one. -/
def skipComment : List Char → List Char
  | '#' :: rest => rest.dropWhile isPrintable
  | cs => cs

/-- The text after the end of a line. Blanks and a comment may stand before it, and the text may
end instead. -/
def afterLine? (cs : List Char) : Option (List Char) :=
  match skipComment (skipInlineBlanks cs) with
  | [] => some []
  | rest => afterBreak? rest

/-- The text after blanks, line breaks and whole comments. `inComment` tells that a comment has
begun. -/
def skipLines (inComment : Bool) : List Char → Option (List Char)
  | '\n' :: rest => skipLines false rest
  | '\r' :: '\n' :: rest => skipLines false rest
  | c :: rest =>
    if inComment then if isPrintable c then skipLines true rest else none
    else if isInlineBlank c then skipLines false rest
    else if c == '#' then skipLines true rest
    else some (c :: rest)
  | [] => if inComment then none else some []

/-! ## Strings -/

/-- The character with the given number, unless it is a surrogate or too large. -/
def charOfNumber? (n : Nat) : Option Char :=
  if h : n.isValidChar then some (Char.ofNatAux n h) else none

/-- The character that a one-letter escape stands for. -/
def escaped? : Char → Option Char
  | '"' => some '"'
  | '\\' => some '\\'
  | 'b' => some '\x08'
  | 'f' => some '\x0c'
  | 'n' => some '\n'
  | 'r' => some '\r'
  | 't' => some '\t'
  | _ => none

/-- A string up to its closing double quote, and the text after it. -/
def scanBasic : List Char → Option (List Char × List Char)
  | '"' :: rest => some ([], rest)
  | '\\' :: 'u' :: a :: b :: c :: d :: rest => do
    let char ← (hexNumber? [a, b, c, d]).bind charOfNumber?
    let (chars, after) ← scanBasic rest
    return (char :: chars, after)
  | '\\' :: 'U' :: a :: b :: c :: d :: e :: f :: g :: h :: rest => do
    let char ← (hexNumber? [a, b, c, d, e, f, g, h]).bind charOfNumber?
    let (chars, after) ← scanBasic rest
    return (char :: chars, after)
  | '\\' :: e :: rest => do
    let char ← escaped? e
    let (chars, after) ← scanBasic rest
    return (char :: chars, after)
  | c :: rest =>
    if isPrintable c then do
      let (chars, after) ← scanBasic rest
      return (c :: chars, after)
    else none
  | [] => none

/-- A string up to its closing single quote, and the text after it. -/
def scanLiteral : List Char → Option (List Char × List Char)
  | '\'' :: rest => some ([], rest)
  | c :: rest =>
    if isPrintable c then do
      let (chars, after) ← scanLiteral rest
      return (c :: chars, after)
    else none
  | [] => none

/-- The quotes, at most two, that belong to a string whose closing three quotes have been found
at their first place, and the text after the closing quotes. -/
def closingQuotes (quote : Char) : List Char → List Char × List Char
  | a :: b :: rest =>
    if a = quote then if b = quote then ([a, b], rest) else ([a], b :: rest)
    else ([], a :: b :: rest)
  | [a] => if a = quote then ([a], []) else ([], [a])
  | [] => ([], [])

/-- How a string of many lines goes on. -/
inductive LineState where
  /-- With its text. -/
  | text
  /-- With the end of a line that a backslash has closed. -/
  | lineEnd
  /-- With blanks and line breaks that do not count. -/
  | skipped

/-- A string up to its closing three double quotes, and the text after them. -/
def scanBasicLines (state : LineState) : List Char → Option (List Char × List Char)
  | '"' :: '"' :: '"' :: rest =>
    match state with
    | .lineEnd => none
    | _ => some (closingQuotes '"' rest)
  | '\n' :: rest =>
    match state with
    | .text => do
      let (chars, after) ← scanBasicLines .text rest
      return ('\n' :: chars, after)
    | _ => scanBasicLines .skipped rest
  | '\r' :: '\n' :: rest =>
    match state with
    | .text => do
      let (chars, after) ← scanBasicLines .text rest
      return ('\n' :: chars, after)
    | _ => scanBasicLines .skipped rest
  | '\\' :: 'u' :: a :: b :: c :: d :: rest =>
    match state with
    | .lineEnd => none
    | _ => do
      let char ← (hexNumber? [a, b, c, d]).bind charOfNumber?
      let (chars, after) ← scanBasicLines .text rest
      return (char :: chars, after)
  | '\\' :: 'U' :: a :: b :: c :: d :: e :: f :: g :: h :: rest =>
    match state with
    | .lineEnd => none
    | _ => do
      let char ← (hexNumber? [a, b, c, d, e, f, g, h]).bind charOfNumber?
      let (chars, after) ← scanBasicLines .text rest
      return (char :: chars, after)
  | '\\' :: e :: rest =>
    match state with
    | .lineEnd => none
    | _ =>
      match escaped? e with
      | some char => do
        let (chars, after) ← scanBasicLines .text rest
        return (char :: chars, after)
      | none =>
        if isInlineBlank e || e == '\n' || e == '\r' then scanBasicLines .lineEnd (e :: rest)
        else none
  | c :: rest =>
    match state with
    | .text =>
      if isPrintable c then do
        let (chars, after) ← scanBasicLines .text rest
        return (c :: chars, after)
      else none
    | .lineEnd => if isInlineBlank c then scanBasicLines .lineEnd rest else none
    | .skipped =>
      if isInlineBlank c then scanBasicLines .skipped rest
      else if isPrintable c then do
        let (chars, after) ← scanBasicLines .text rest
        return (c :: chars, after)
      else none
  | [] => none

/-- A string up to its closing three single quotes, and the text after them. -/
def scanLiteralLines : List Char → Option (List Char × List Char)
  | '\'' :: '\'' :: '\'' :: rest => some (closingQuotes '\'' rest)
  | '\n' :: rest => do
    let (chars, after) ← scanLiteralLines rest
    return ('\n' :: chars, after)
  | '\r' :: '\n' :: rest => do
    let (chars, after) ← scanLiteralLines rest
    return ('\n' :: chars, after)
  | c :: rest =>
    if isPrintable c then do
      let (chars, after) ← scanLiteralLines rest
      return (c :: chars, after)
    else none
  | [] => none

/-- The text after a line break, if it starts with one. -/
def skipFirstBreak (cs : List Char) : List Char :=
  (afterBreak? cs).getD cs

/-- The string that a text starts with, and the text after it. -/
def scanString : List Char → Option (List Char × List Char)
  | '"' :: '"' :: '"' :: rest => scanBasicLines .text (skipFirstBreak rest)
  | '"' :: rest => scanBasic rest
  | '\'' :: '\'' :: '\'' :: rest => scanLiteralLines (skipFirstBreak rest)
  | '\'' :: rest => scanLiteral rest
  | _ => none

/-! ## Keys -/

def isBareKeyChar (c : Char) : Bool :=
  c.isAlphanum || c == '_' || c == '-'

/-- One part of a key: a string of one line, or letters, digits, underscores and hyphens. -/
def scanKeyPart : List Char → Option (List Char × List Char)
  | '"' :: rest => scanBasic rest
  | '\'' :: rest => scanLiteral rest
  | cs =>
    match cs.takeWhile isBareKeyChar with
    | [] => none
    | part => some (part, cs.dropWhile isBareKeyChar)

/-- The parts of a key with points between them, at most `most` of them, and the text after the
key. Blanks may stand around every part. -/
def scanKey : Nat → List Char → Option (List String × List Char)
  | 0, _ => none
  | most + 1, cs => do
    let (part, after) ← scanKeyPart (skipInlineBlanks cs)
    match skipInlineBlanks after with
    | '.' :: rest =>
      let (parts, rest) ← scanKey most rest
      return (String.ofList part :: parts, rest)
    | rest => return ([String.ofList part], rest)

end BoundSql.Toml

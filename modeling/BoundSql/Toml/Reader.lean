import BoundSql.Toml.Item
import BoundSql.Toml.Scalar

/-! # Reading the lines of a TOML document -/

namespace BoundSql.Toml

/-- How deep arrays and tables between braces may lie in each other, and how many parts a key may
have. -/
def maxNesting : Nat := 79

mutual

/-- The value that a text starts with, and the text after it. `depth` is the number of brackets
that may still be opened. -/
def scanValue : Nat → Nat → List Char → Option (Item × List Char)
  | 0, _, _ => none
  | fuel + 1, depth, cs =>
    match cs with
    | '[' :: rest =>
      match depth with
      | 0 => none
      | depth + 1 => (scanItems fuel depth rest).map fun (items, after) => (.array items, after)
    | '\x7b' :: rest =>
      match depth with
      | 0 => none
      | depth + 1 =>
        match skipInlineBlanks rest with
        | '\x7d' :: after => some (.table .inline [], after)
        | _ =>
          (scanMembers fuel depth [] rest).map fun (entries, after) =>
            (.table .inline entries, after)
    | '"' :: _ => (scanString cs).map fun (s, after) => (.string (String.ofList s), after)
    | '\'' :: _ => (scanString cs).map fun (s, after) => (.string (String.ofList s), after)
    | _ => (afterScalar? cs).map fun after => (.scalar, after)

/-- The items of an array from here to its end, and the text after it. -/
def scanItems : Nat → Nat → List Char → Option (List Item × List Char)
  | 0, _, _ => none
  | fuel + 1, depth, cs => do
    match ← skipLines false cs with
    | ']' :: after => return ([], after)
    | cs =>
      let (item, after) ← scanValue fuel depth cs
      match ← skipLines false after with
      | ',' :: rest =>
        let (items, after) ← scanItems fuel depth rest
        return (item :: items, after)
      | ']' :: after => return ([item], after)
      | _ => none

/-- The entries of a table between braces from here to its end, added to those before, and the
text after it. -/
def scanMembers : Nat → Nat → Entries → List Char → Option (Entries × List Char)
  | 0, _, _, _ => none
  | fuel + 1, depth, entries, cs => do
    let (key, afterKey) ← scanKey maxNesting cs
    let afterEquals ← afterMark? '=' afterKey
    let (item, afterItem) ← scanValue fuel depth (skipInlineBlanks afterEquals)
    let entries ← entries.assign? item true key
    match skipInlineBlanks afterItem with
    | ',' :: rest => scanMembers fuel depth entries rest
    | '\x7d' :: after => return (entries, after)
    | _ => none

end

/-- What a line of a document says. -/
inductive Line where
  | assign (key : List String) (item : Item)
  | header (path : List String)
  | repeatedHeader (path : List String)

/-- The value that a text starts with. Along a chain of nested scans at most every second one
reads no character, so that the fuel cannot run out. -/
def scanWholeValue (cs : List Char) : Option (Item × List Char) :=
  scanValue (2 * cs.length + 2) maxNesting cs

/-- The line that a text starts with, which is neither empty nor a comment, and the text after
it. -/
def scanLine : List Char → Option (Line × List Char)
  | '[' :: '[' :: rest => do
    let (path, after) ← scanKey maxNesting rest
    let after ← (afterMark? ']' after).bind (afterMark? ']')
    return (.repeatedHeader path, ← afterLine? after)
  | '[' :: rest => do
    let (path, after) ← scanKey maxNesting rest
    let after ← afterMark? ']' after
    return (.header path, ← afterLine? after)
  | cs => do
    let (key, afterKey) ← scanKey maxNesting cs
    let afterEquals ← afterMark? '=' afterKey
    let (item, after) ← scanWholeValue (skipInlineBlanks afterEquals)
    return (.assign key item, ← afterLine? after)

/-- The lines of a text, at most `fuel` of them. -/
def scanLines : Nat → List Char → Option (List Line)
  | 0, _ => none
  | fuel + 1, cs =>
    match afterLine? cs with
    | some [] => some []
    | some rest => scanLines fuel rest
    | none => do
      let (line, rest) ← scanLine (skipInlineBlanks cs)
      let lines ← scanLines fuel rest
      return line :: lines

/-- The lines of a document. A byte order mark before them does not count. -/
def readLines (cs : List Char) : Option (List Line) :=
  let text :=
    match cs with
    | '\ufeff' :: rest => rest
    | cs => cs
  scanLines (text.length + 1) text

end BoundSql.Toml

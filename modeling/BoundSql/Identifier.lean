/-! # Quoted identifiers

A quoted identifier is the name between two quote characters, with every quote character
inside the name written twice. -/

namespace BoundSql.Identifier

/-- Every `quote` in the text written twice. -/
def doubled (quote : Char) (name : List Char) : List Char :=
  name.flatMap fun c => if c = quote then [c, c] else [c]

/-- The length of a text in UTF-8. -/
def byteLength : List Char → Nat
  | [] => 0
  | c :: rest => c.utf8Size + byteLength rest

/-- A name counts as quoted when it is at least two bytes long and has the quote character at
both ends. -/
def isQuoted (quote : Char) (name : List Char) : Bool :=
  2 ≤ byteLength name && name.head? == some quote && name.getLast? == some quote

/-- The characters of a quoted name. A name that counts as quoted is kept as it is. -/
def quoteChars (quote : Char) (name : List Char) : List Char :=
  if isQuoted quote name then name else quote :: (doubled quote name ++ [quote])

/-- A name as an identifier in the given quote character. -/
def quote (quote : Char) (name : String) : String :=
  String.ofList (quoteChars quote name.toList)

end BoundSql.Identifier

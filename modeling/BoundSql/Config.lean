import BoundSql.Dialect.Shipped
import BoundSql.Toml.Document

/-! # Configuration

A configuration is a TOML document whose key `dialect` names the dialect to compile for. -/

namespace BoundSql

structure Config where
  dialect : ShippedDialect := default

namespace Config

open Toml

/-- The item holds nothing. -/
def isVoid : Item → Bool
  | .array [] => true
  | .table _ [] => true
  | _ => false

/-- The dialect that an item names: by a string, or by the one key of a table under which there
is nothing. -/
def dialectOf? : Item → Option ShippedDialect
  | .string name => ShippedDialect.ofKey? name
  | .table _ [(name, content)] => if isVoid content then ShippedDialect.ofKey? name else none
  | _ => none

/-- The configuration of a document. Other keys do not count. -/
def ofEntries? (entries : Entries) : Option Config :=
  match entries.item? "dialect" with
  | none => some {}
  | some item => (dialectOf? item).map Config.mk

/-- The configuration that a text holds. -/
def ofText (text : String) : Except QueryError Config :=
  match (Toml.read? text.toList).bind ofEntries? with
  | some config => .ok config
  | none => .error .toml

/-- The configuration in a file with the given content, if the file is there. The content must
be UTF-8. -/
def ofFile (content : Option ByteArray) : Except QueryError Config :=
  match content.bind String.fromUTF8? with
  | some text => ofText text
  | none => .error .io

/-- The configuration from the file of the working directory, else from that of the user, else
the usual one. -/
def load (working user : Option ByteArray) : Except QueryError Config :=
  match working, user with
  | some content, _ => ofFile (some content)
  | none, some content => ofFile (some content)
  | none, none => .ok {}

end Config

end BoundSql

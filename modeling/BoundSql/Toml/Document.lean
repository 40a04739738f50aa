import BoundSql.Toml.Reader

/-! # TOML documents

The lines of a document are gathered by sections. A section is the part from one header to the
next; the part before the first header belongs to the document itself. -/

namespace BoundSql.Toml

/-- Where the entries of the present section belong. -/
inductive Place where
  | top
  | table (path : List String) (key : String)
  | element (path : List String) (key : String)

/-- A document that is being read: the finished sections, and the present one. -/
structure Document where
  finished : Entries := []
  present : Entries := []
  place : Place := .top

namespace Document

/-- One more table under a key. -/
def addTable? (key : String) (table : Entries) (entries : Entries) : Option (Entries × Unit) :=
  (entries.add? key (.table .header table)).map (·, ())

/-- One more table under a repeated header. -/
def addElement? (key : String) (element : Entries) (entries : Entries) : Option (Entries × Unit) :=
  match entries.item? key with
  | some (.tables elements) => some (entries.replace key (.tables (element :: elements)), ())
  | _ => none

/-- The entries with the present section put to its place. -/
def close? (d : Document) : Option Entries :=
  match d.place with
  | .top => some d.present
  | .table path key => (d.finished.within? (addTable? key d.present) path).map Prod.fst
  | .element path key => (d.finished.within? (addElement? key d.present) path).map Prod.fst

/-- Opens a section for a key. What longer headers have given to its table before becomes the
start of the section. A table may have its own header once. -/
def claimTable? (key : String) (entries : Entries) : Option (Entries × Entries) :=
  match entries.item? key with
  | none => some (entries, [])
  | some (.table .implied inner) => some (entries.erase key, inner)
  | some _ => none

/-- Opens a section for one more table under a repeated header. -/
def claimElement? (key : String) (entries : Entries) : Option (Entries × Entries) :=
  match entries.item? key with
  | none => (entries.add? key (.tables [])).map (·, [])
  | some (.tables _) => some (entries, [])
  | some _ => none

/-- The document after a header. -/
def openTable? (d : Document) (path : List String) (key : String) : Option Document := do
  let (finished, present) ← (← d.close?).within? (claimTable? key) path
  return ⟨finished, present, .table path key⟩

/-- The document after a repeated header. -/
def openElement? (d : Document) (path : List String) (key : String) : Option Document := do
  let (finished, present) ← (← d.close?).within? (claimElement? key) path
  return ⟨finished, present, .element path key⟩

/-- The document after one more line. -/
def step (d : Document) : Line → Option Document
  | .assign key item => (d.present.assign? item true key).map fun present => { d with present }
  | .header path =>
    match path.getLast? with
    | some key => d.openTable? path.dropLast key
    | none => none
  | .repeatedHeader path =>
    match path.getLast? with
    | some key => d.openElement? path.dropLast key
    | none => none

end Document

/-- The entries of the document that a text holds. -/
def read? (cs : List Char) : Option Entries := do
  let lines ← readLines cs
  let d ← lines.foldlM Document.step {}
  d.close?

end BoundSql.Toml

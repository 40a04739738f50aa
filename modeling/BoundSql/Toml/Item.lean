/-! # Items of a TOML document

A document is a tree of tables. How a table came about decides who may still add to it. -/

namespace BoundSql.Toml

/-- How a table came about. -/
inductive Origin where
  /-- By a header of its own, or as the document itself. -/
  | header
  /-- By a longer header only. -/
  | implied
  /-- By a key with points. -/
  | dotted
  /-- Between braces. -/
  | inline
  deriving DecidableEq

/-- What a key of a document stands for. Of numbers, truth values and dates only the presence is
kept. -/
inductive Item where
  | string (s : String)
  | scalar
  | array (items : List Item)
  | table (origin : Origin) (entries : List (String × Item))
  /-- The tables of one repeated header, last first. -/
  | tables (elements : List (List (String × Item)))

/-- The keys of a table and what they stand for, in order. -/
abbrev Entries := List (String × Item)

namespace Entries

def item? (key : String) (entries : Entries) : Option Item :=
  (entries.find? fun e => e.1 == key).map Prod.snd

/-- The entries with another item for a key that is there. -/
def replace (key : String) (item : Item) (entries : Entries) : Entries :=
  entries.map fun e => if e.1 == key then (key, item) else e

/-- The entries without a key. -/
def erase (key : String) (entries : Entries) : Entries :=
  entries.filter fun e => !(e.1 == key)

/-- The entries with one more key, which must be new. -/
def add? (key : String) (item : Item) (entries : Entries) : Option Entries :=
  if (entries.item? key).isSome then none else some (entries ++ [(key, item)])

/-- The entries with an item under a key of several parts. The parts before the last name
tables; these are made where they are missing, and only those that keys with points have made
take new keys. `direct` tells that these entries themselves take new keys. -/
def assign? (item : Item) (direct : Bool) : List String → Entries → Option Entries
  | [], _ => none
  | [key], entries => if direct then entries.add? key item else none
  | key :: rest, entries =>
    match entries.item? key with
    | none => do
      let inner ← assign? item true rest []
      entries.add? key (.table .dotted inner)
    | some (.table .dotted inner) => do
      let inner ← assign? item true rest inner
      return entries.replace key (.table .dotted inner)
    | some (.table .implied inner) => do
      let inner ← assign? item false rest inner
      return entries.replace key (.table .implied inner)
    | some (.tables (last :: before)) => do
      let last ← assign? item false rest last
      return entries.replace key (.tables (last :: before))
    | some _ => none

/-- The entries after a step in the table that a path leads to, with the result of the step.
Tables on the path are made where they are missing; a repeated header leads to its last table. -/
def within? {α : Type} (step : Entries → Option (Entries × α)) :
    List String → Entries → Option (Entries × α)
  | [], entries => step entries
  | key :: rest, entries =>
    match entries.item? key with
    | none => do
      let (inner, result) ← within? step rest []
      return (← entries.add? key (.table .implied inner), result)
    | some (.table .inline _) => none
    | some (.table origin inner) => do
      let (inner, result) ← within? step rest inner
      return (entries.replace key (.table origin inner), result)
    | some (.tables (last :: before)) => do
      let (last, result) ← within? step rest last
      return (entries.replace key (.tables (last :: before)), result)
    | some _ => none

end Entries

end BoundSql.Toml

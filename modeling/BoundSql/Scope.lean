import BoundSql.Piece

/-! # Scopes

The scope of a statement holds its tables and the aliases they have drawn. It decides to which
table a column belongs. -/

namespace BoundSql

/-- The tables of a statement with their aliases: the main table and, if there is one, the
joined table. -/
structure Scope where
  table : Table
  mainAlias : Alias
  join : Option (Join × Alias) := none

namespace Scope

/-- The rest of a name that starts with the name of a table and a dot. -/
def columnOf? (table name : String) : Option String :=
  match table.toList.isPrefixOf? name.toList with
  | some ('.' :: rest) => some (String.ofList rest)
  | _ => none

/-- A column of a table, by a name that may start with that of the table. -/
def tableColumn (table : Table) (a : Alias) (name : String) : Piece :=
  .column a ((columnOf? table.name name).getD name)

/-- A column of the main table. -/
def mainColumn (s : Scope) (name : String) : Piece :=
  tableColumn s.table s.mainAlias name

/-- The column that a name means: of the joined table if the name starts with it, otherwise of
the main table. -/
def resolve (s : Scope) (name : String) : Piece :=
  match s.join with
  | some (join, joinAlias) =>
    match columnOf? join.table.name name with
    | some column => .column joinAlias column
    | none => s.mainColumn name
  | none => s.mainColumn name

/-- The scope of a statement. The main table draws its alias first. -/
def enter? (table : Option Table) (join : Option Join) (supply : AliasSupply) :
    Option (Scope × AliasSupply) :=
  match table with
  | none => none
  | some table =>
    let (mainAlias, supply) := supply.next
    match join with
    | none => some (⟨table, mainAlias, none⟩, supply)
    | some join =>
      let (joinAlias, supply) := supply.next
      some (⟨table, mainAlias, some (join, joinAlias)⟩, supply)

end Scope

end BoundSql

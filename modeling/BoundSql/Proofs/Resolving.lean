import Mathlib.Data.List.Forall2
import BoundSql.Proofs.AliasScoping
import BoundSql.Proofs.Texts

/-! # The columns that names mean

The part of a name before its first dot says to which table a column belongs. Every column in a
statement is that which its name means among the tables that may be named at its place. -/

namespace BoundSql

/-! ## The meaning of a name -/

/-- The column that a name means among tables with their aliases. If the part before the first dot
of the name is the name of a table, the column is that with the rest of the name in the first such
table. Otherwise it is that with the whole name in the last table. -/
inductive Means (tables : List (Table × Alias)) : String → Alias → String → Prop where
  | owned {owner : String} {t : Table} {a : Alias} (own : String) (hdot : '.' ∉ owner.toList)
      (h : tables.find? (fun e => e.1.name == owner) = some (t, a)) :
      Means tables (owner ++ "." ++ own) a own
  | whole {name : String} {t : Table} {a : Alias} (hlast : tables.getLast? = some (t, a))
      (h : ∀ owner own, '.' ∉ owner.toList → name = owner ++ "." ++ own →
        ∀ e ∈ tables, e.1.name ≠ owner) :
      Means tables name a name

/-- A list is cut at the first dot in one way only. -/
theorem append_dot_inj {left other right rest : List Char} (hleft : '.' ∉ left)
    (hother : '.' ∉ other) (h : left ++ '.' :: right = other ++ '.' :: rest) :
    left = other ∧ right = rest := by
  induction left generalizing other with
  | nil =>
      cases other with
      | nil => simpa using h
      | cons c _ =>
          obtain ⟨rfl, -⟩ : '.' = c ∧ _ := by simpa using h
          simp at hother
  | cons c left ih =>
      cases other with
      | nil =>
          obtain ⟨rfl, -⟩ : c = '.' ∧ _ := by simpa using h
          simp at hleft
      | cons _ other =>
          simp only [List.cons_append, List.cons.injEq] at h
          obtain ⟨rfl, hright⟩ := ih (List.not_mem_of_not_mem_cons hleft)
            (List.not_mem_of_not_mem_cons hother) h.2
          exact ⟨by rw [h.1], hright⟩

/-- Names that are cut at their first dots have the same parts. -/
theorem cut_inj {owner own other rest : String} (howner : '.' ∉ owner.toList)
    (hother : '.' ∉ other.toList) (h : owner ++ "." ++ own = other ++ "." ++ rest) :
    owner = other ∧ own = rest := by
  have hchars := congrArg String.toList h
  have hdot : ".".toList = ['.'] := rfl
  simp only [String.toList_append, hdot, List.append_assoc, List.singleton_append] at hchars
  obtain ⟨hleft, hright⟩ := append_dot_inj howner hother hchars
  exact ⟨String.toList_inj.mp hleft, String.toList_inj.mp hright⟩

namespace Means

variable {tables : List (Table × Alias)} {name own rest : String} {a b : Alias}

theorem cases (h : Means tables name a own) :
    (∃ owner t, '.' ∉ owner.toList ∧ name = owner ++ "." ++ own ∧
      tables.find? (fun e => e.1.name == owner) = some (t, a)) ∨
    (own = name ∧ (∃ t, tables.getLast? = some (t, a)) ∧
      ∀ owner own, '.' ∉ owner.toList → name = owner ++ "." ++ own →
        ∀ e ∈ tables, e.1.name ≠ owner) := by
  cases h with
  | owned own hdot h => exact .inl ⟨_, _, hdot, rfl, h⟩
  | whole hlast h => exact .inr ⟨rfl, ⟨_, hlast⟩, h⟩

/-- A table that is found under a name has it. -/
theorem exists_mem_of_find? {owner : String} {t : Table}
    (h : tables.find? (fun e => e.1.name == owner) = some (t, a)) :
    ∃ e ∈ tables, e.1.name = owner :=
  ⟨(t, a), List.mem_of_find?_eq_some h, by simpa using List.find?_some h⟩

/-- A name means one column only. -/
theorem unique (h : Means tables name a own) (hother : Means tables name b rest) :
    b = a ∧ rest = own := by
  rcases h.cases with ⟨owner, t, hdot, hname, hfind⟩ | ⟨rfl, ⟨t, hlast⟩, hnone⟩
  · rcases hother.cases with ⟨other, u, hdotOther, hnameOther, hfindOther⟩ | ⟨rfl, -, hnone⟩
    · obtain ⟨rfl, rfl⟩ := cut_inj hdot hdotOther (hname.symm.trans hnameOther)
      have hsame := hfind.symm.trans hfindOther
      simp only [Option.some.injEq, Prod.mk.injEq] at hsame
      exact ⟨hsame.2.symm, rfl⟩
    · obtain ⟨e, he, hnamed⟩ := exists_mem_of_find? hfind
      exact absurd hnamed (hnone owner own hdot hname e he)
  · rcases hother.cases with ⟨other, u, hdot, hname, hfind⟩ | ⟨rfl, ⟨u, hlastOther⟩, -⟩
    · obtain ⟨e, he, hnamed⟩ := exists_mem_of_find? hfind
      exact absurd hnamed (hnone other rest hdot hname e he)
    · have hsame := hlast.symm.trans hlastOther
      simp only [Option.some.injEq, Prod.mk.injEq] at hsame
      exact ⟨hsame.2.symm, rfl⟩

theorem means_iff (h : Means tables name a own) (b : Alias) (rest : String) :
    Means tables name b rest ↔ b = a ∧ rest = own := by
  constructor
  · exact h.unique
  · rintro ⟨rfl, rfl⟩
    exact h

end Means

/-! ## The columns of a scope -/

/-- A name of a column at a place where certain tables may be named: in a field those of the
statement, in an assignment and on the main side of a join the main table, on its other side the
joined one. -/
inductive ColumnUse where
  | field (name : String)
  | main (name : String)
  | joined (name : String)

namespace ColumnUse

/-- The name that is used. -/
def name : ColumnUse → String
  | field name | main name | joined name => name

/-- The tables that may be named, the joined one before the main one. -/
def tables (s : Scope) : ColumnUse → List (Table × Alias)
  | field _ => (s.join.map fun (join, a) => (join.table, a)).toList ++ [(s.table, s.mainAlias)]
  | main _ => [(s.table, s.mainAlias)]
  | joined _ => (s.join.map fun (join, a) => (join.table, a)).toList

/-- The piece is the one column that the used name means. -/
def Picks (s : Scope) (use : ColumnUse) (piece : Piece) : Prop :=
  ∃ a own, (∀ b other, Means (use.tables s) use.name b other ↔ b = a ∧ other = own) ∧
    piece = .column a own

/-- The token is the one column that the used name means, qualified by the alias of its table. -/
def Writes (d : Dialect) (s : Scope) (use : ColumnUse) (t : Token) : Prop :=
  ∃ a own, (∀ b other, Means (use.tables s) use.name b other ↔ b = a ∧ other = own) ∧
    t = .text (d.column a.name own)

theorem forall₂_writes {d : Dialect} {s : Scope} {uses : List ColumnUse} {pieces : List Piece}
    (h : List.Forall₂ (Picks s) uses pieces) :
    List.Forall₂ (Writes d s) uses (Piece.tokens d pieces) := by
  induction h with
  | nil => exact .nil
  | cons hpick hrest ih =>
      obtain ⟨a, own, hmeans, rfl⟩ := hpick
      have htoken : Writes d s _ (.text (d.column a.name own)) := ⟨a, own, hmeans, rfl⟩
      simpa [Piece.tokens_cons, Piece.items, Item.toToken] using List.Forall₂.cons htoken ih

end ColumnUse

namespace Scope

/-- The name of a table and a dot are dropped from the front of a name. -/
theorem columnOf?_eq_some_iff {table name own : String} :
    columnOf? table name = some own ↔ name = table ++ "." ++ own := by
  constructor
  · intro h
    rw [columnOf?] at h
    split at h
    · next tail hleading =>
      cases h
      rw [List.isPrefixOf?_eq_some_iff_append_eq] at hleading
      rw [← String.toList_inj, ← hleading]
      simp
    · cases h
  · rintro rfl
    have hleading : table.toList.isPrefixOf? (table ++ "." ++ own).toList =
        some ('.' :: own.toList) := by
      rw [List.isPrefixOf?_eq_some_iff_append_eq]
      simp
    rw [columnOf?, hleading]
    simp

/-- No name of a table has a dot in it. -/
def Dotless (s : Scope) : Prop :=
  ∀ t ∈ s.references.map Prod.fst, '.' ∉ t.name.toList

variable {s : Scope} {join : Join} {a : Alias}

theorem Dotless.main (hs : s.Dotless) : '.' ∉ s.table.name.toList :=
  hs s.table (by simp [references])

theorem Dotless.joined (hs : s.Dotless) (hjoin : s.join = some (join, a)) :
    '.' ∉ join.table.name.toList :=
  hs join.table (by simp [references, hjoin])

/-- A name that starts with that of a table and a dot means a column of the first such table. -/
theorem means_of_columnOf? {tables : List (Table × Alias)} {t : Table} {name own : String}
    (hdot : '.' ∉ t.name.toList) (hcolumn : columnOf? t.name name = some own)
    (hfind : tables.find? (fun e => e.1.name == t.name) = some (t, a)) :
    Means tables name a own := by
  rw [columnOf?_eq_some_iff.mp hcolumn]
  exact .owned own hdot hfind

/-- A name that starts with that of no table and a dot means a column of the last table. -/
theorem means_of_columnOf?_eq_none {tables : List (Table × Alias)} {t : Table} {name : String}
    (hlast : tables.getLast? = some (t, a))
    (hnone : ∀ e ∈ tables, columnOf? e.1.name name = none) : Means tables name a name := by
  refine .whole hlast ?_
  intro owner own _ hname e he
  rintro rfl
  have hcolumn := hnone e he
  simp [columnOf?_eq_some_iff.mpr hname] at hcolumn

/-- The column of a table alone. -/
theorem means_tableColumn {t : Table} (hdot : '.' ∉ t.name.toList) (a : Alias) (name : String) :
    ∃ own, tableColumn t a name = .column a own ∧ Means [(t, a)] name a own := by
  cases hcolumn : columnOf? t.name name with
  | some own =>
      have hfind : [(t, a)].find? (fun e => e.1.name == t.name) = some (t, a) := by simp
      exact ⟨own, by simp [tableColumn, hcolumn], means_of_columnOf? hdot hcolumn hfind⟩
  | none =>
      have hnone : ∀ e ∈ [(t, a)], columnOf? e.1.name name = none := by simp [hcolumn]
      exact ⟨name, by simp [tableColumn, hcolumn], means_of_columnOf?_eq_none rfl hnone⟩

theorem picks_mainColumn (hs : s.Dotless) (name : String) :
    (ColumnUse.main name).Picks s (s.mainColumn name) := by
  obtain ⟨own, hcolumn, hmeans⟩ := means_tableColumn hs.main s.mainAlias name
  exact ⟨s.mainAlias, own, hmeans.means_iff, hcolumn⟩

theorem picks_joinColumn (hs : s.Dotless) (hjoin : s.join = some (join, a)) (name : String) :
    (ColumnUse.joined name).Picks s (tableColumn join.table a name) := by
  obtain ⟨own, hcolumn, hmeans⟩ := means_tableColumn (hs.joined hjoin) a name
  have htables : (ColumnUse.joined name).tables s = [(join.table, a)] := by
    simp [ColumnUse.tables, hjoin]
  refine ⟨a, own, ?_, hcolumn⟩
  rw [htables]
  exact hmeans.means_iff

/-- With a join, the joined table is looked for first. -/
theorem means_of_join (hs : s.Dotless) (hjoin : s.join = some (join, a)) (name : String) :
    ∃ b own, s.resolve name = .column b own ∧
      Means [(join.table, a), (s.table, s.mainAlias)] name b own := by
  cases hjoined : columnOf? join.table.name name with
  | some own =>
      have hfind : [(join.table, a), (s.table, s.mainAlias)].find?
          (fun e => e.1.name == join.table.name) = some (join.table, a) := by simp
      exact ⟨a, own, by simp [resolve, hjoin, hjoined],
        means_of_columnOf? (hs.joined hjoin) hjoined hfind⟩
  | none =>
      have hresolve : s.resolve name = s.mainColumn name := by simp [resolve, hjoin, hjoined]
      rw [hresolve]
      cases hmain : columnOf? s.table.name name with
      | some own =>
          -- In a self-join the joined table would have taken the name.
          have hne : join.table.name ≠ s.table.name := by
            intro hsame
            rw [hsame, hmain] at hjoined
            cases hjoined
          have hfind : [(join.table, a), (s.table, s.mainAlias)].find?
              (fun e => e.1.name == s.table.name) = some (s.table, s.mainAlias) := by simp [hne]
          exact ⟨s.mainAlias, own, by simp [mainColumn, tableColumn, hmain],
            means_of_columnOf? hs.main hmain hfind⟩
      | none =>
          have hnone : ∀ e ∈ [(join.table, a), (s.table, s.mainAlias)],
              columnOf? e.1.name name = none := by simp [hjoined, hmain]
          exact ⟨s.mainAlias, name, by simp [mainColumn, tableColumn, hmain],
            means_of_columnOf?_eq_none rfl hnone⟩

theorem picks_resolve (hs : s.Dotless) (name : String) :
    (ColumnUse.field name).Picks s (s.resolve name) := by
  rcases hjoin : s.join with _ | ⟨join, a⟩
  · have hresolve : s.resolve name = s.mainColumn name := by simp [resolve, hjoin]
    have htables : (ColumnUse.field name).tables s = (ColumnUse.main name).tables s := by
      simp [ColumnUse.tables, hjoin]
    obtain ⟨b, own, hmeans, hcolumn⟩ := picks_mainColumn hs name
    exact ⟨b, own, htables ▸ hmeans, hresolve.trans hcolumn⟩
  · obtain ⟨b, own, hcolumn, hmeans⟩ := means_of_join hs hjoin name
    have htables : (ColumnUse.field name).tables s =
        [(join.table, a), (s.table, s.mainAlias)] := by
      simp [ColumnUse.tables, hjoin]
    refine ⟨b, own, ?_, hcolumn⟩
    rw [htables]
    exact hmeans.means_iff

end Scope

/-! ## The columns of a statement -/

/-- The names of columns at the two sides of a join. -/
def Join.columnUses (join : Join) : List ColumnUse :=
  [.main join.mainField, .joined join.joinField]

/-- The names of columns in the clause of a verb, from left to right. An insert prints no join, and
it names its columns without their table. -/
def Action.columnUses (join : Option Join) : Action → List ColumnUse
  | .select fields => (Field.allColumns fields).map .field ++ join.elim [] Join.columnUses
  | .update assignments => join.elim [] Join.columnUses ++ assignments.columns.map .main
  | .insert _ _ => []
  | .delete => join.elim [] Join.columnUses

/-- The names of columns in a statement, from left to right, but for the statements nested in it. -/
def Query.columnUses (q : Query) : List ColumnUse :=
  q.action.elim [] (Action.columnUses q.join) ++ q.clauseColumns.map .field

namespace Scope

variable {s : Scope}

theorem forall₂_picks {use : String → ColumnUse} {column : String → Piece}
    (h : ∀ name, (use name).Picks s (column name)) (names : List String) :
    List.Forall₂ (ColumnUse.Picks s) (names.map use) (names.map column) := by
  rw [List.forall₂_map_left_iff, List.forall₂_map_right_iff, List.forall₂_same]
  exact fun name _ => h name

theorem picks_joinMentions (hs : s.Dotless) :
    List.Forall₂ (ColumnUse.Picks s) ((s.join.map Prod.fst).elim [] Join.columnUses)
      (s.joinMentions.filter Piece.isColumn) := by
  rcases hjoin : s.join with _ | ⟨join, a⟩
  · simp [joinMentions, hjoin]
  · have hmentions : s.joinMentions.filter Piece.isColumn =
        [s.mainColumn join.mainField, tableColumn join.table a join.joinField] := by
      simp [joinMentions, hjoin, Piece.isColumn, mainColumn, tableColumn]
    rw [hmentions]
    exact .cons (picks_mainColumn hs _) (.cons (picks_joinColumn hs hjoin _) .nil)

end Scope

theorem Statement.picks_actionMentions {s : Scope} (hs : s.Dotless) (upsert : Option Upsert)
    (action : Action) :
    List.Forall₂ (ColumnUse.Picks s) (action.columnUses (s.join.map Prod.fst))
      ((actionMentions s upsert action).filter Piece.isColumn) := by
  have hjoin := Scope.picks_joinMentions hs
  cases action with
  | select fields =>
      rw [actionMentions, List.filter_append, s.filter_isColumn_resolve]
      exact List.rel_append (Scope.forall₂_picks (Scope.picks_resolve hs) _) hjoin
  | update assignments =>
      have hcolumns : (assignments.columns.map s.mainColumn).filter Piece.isColumn =
          assignments.columns.map s.mainColumn := by
        rw [List.filter_eq_self]
        intro piece hpiece
        obtain ⟨name, -, rfl⟩ := List.mem_map.mp hpiece
        rfl
      rw [actionMentions, List.filter_cons_of_neg (by simp [Piece.isColumn]), List.filter_append,
        hcolumns]
      exact List.rel_append hjoin (Scope.forall₂_picks (Scope.picks_mainColumn hs) _)
  | insert rows mode =>
      have hunaliased : ∀ piece ∈ actionMentions s upsert (.insert rows mode), piece.Unaliased :=
        unaliased_actionMentions s upsert rfl
      rw [Piece.filter_isColumn_of_unaliased hunaliased]
      exact .nil
  | delete =>
      have htarget : ((if s.join.isSome then [Piece.target s.mainAlias] else []) ++
          Piece.source s.table s.mainAlias :: s.joinMentions).filter Piece.isColumn =
            s.joinMentions.filter Piece.isColumn := by
        split <;> simp [Piece.isColumn]
      rw [actionMentions, htarget]
      exact hjoin

/-- The columns in a statement are those that its names mean. -/
theorem Lowered.Runs.picks {v : Vocabulary} {l : Lowered} (h : l.Runs v)
    (hdots : ∀ t ∈ l.statement.tables, '.' ∉ t.name.toList) :
    List.Forall₂ (ColumnUse.Picks l.scope) l.statement.columnUses
      (l.pieces.filter Piece.isColumn) := by
  obtain ⟨entered, after, hs, hrun⟩ := h
  obtain ⟨s, _, action, hs', haction, hmentions⟩ := Compile.mentions_query hrun
  obtain ⟨rfl, rfl⟩ : l.scope = s ∧ entered = _ := by simpa using hs.symm.trans hs'
  obtain ⟨htable, hjoin⟩ := Scope.of_enter? hs
  have hdotless : l.scope.Dotless := by
    have hreferences : l.scope.references.map Prod.fst = l.statement.tables := by
      rw [Query.tables, htable, hjoin, Scope.references]
      cases l.scope.join <;> rfl
    rwa [Scope.Dotless, hreferences]
  rw [← Piece.filter_isColumn_mentions, hmentions, List.filter_append,
    l.scope.filter_isColumn_resolve, Query.columnUses, haction, Option.elim_some, hjoin]
  exact List.rel_append (Statement.picks_actionMentions hdotless _ action)
    (Scope.forall₂_picks (Scope.picks_resolve hdotless) _)

/-- In every statement of a query whose tables have no dots in their names, the columns are written
in the order in which they are named, every one as the column that its name means by the part
before the first dot, qualified by the alias of its table. -/
theorem Query.compile_resolves {d : Dialect} {q : Query} {supply after : AliasSupply} {c : Clause}
    (h : q.compile d supply = (.ok c, after)) :
    ∃ (pieces : List Piece) (runs : List Lowered),
      c = Clause.ofPieces d pieces ∧
      runs.map Lowered.statement = q.statements ∧
      runs.map Lowered.pieces = pieces :: Piece.allStatements pieces ∧
      ∀ l ∈ runs, l.Runs d.toVocabulary ∧
        ((∀ t ∈ l.statement.tables, '.' ∉ t.name.toList) →
          List.Forall₂ (ColumnUse.Writes d l.scope) l.statement.columnUses
            (Piece.tokens d (l.pieces.filter Piece.isColumn))) := by
  obtain ⟨pieces, hpieces, rfl⟩ := compile_ok.mp h
  obtain ⟨runs, hruns⟩ := Compile.numbers_query q hpieces
  refine ⟨pieces, runs, rfl, hruns.statements_eq, hruns.bodies_eq, fun l hl => ?_⟩
  have hrun := hruns.all_run l hl
  exact ⟨hrun, fun hdots => ColumnUse.forall₂_writes (hrun.picks hdots)⟩

/-- Persons with their superiors, where the name of one table starts with that of the other. -/
def Query.superiors : Query where
  table := some ⟨"user", none⟩
  join := some ⟨.left, ⟨"users", none⟩, "user.boss", "users.user.id"⟩
  action := some (.select [.named "users.name",
    .function "lower" [.function "trim" [.named "user.users.name"]], .named "username"])
  filter := some (.compare (.named "teams.id") .gt (.literal (.int 3)))
  groupBy := [.named "users.users.name", .named "user."]

/-- A name that only starts with the name of a table is whole, and so is one with the name of
another table before its dot. -/
theorem Query.compile_resolves_superiors :
    ∃ (c : Clause) (l : Lowered),
      superiors.compile ShippedDialect.mysql.dialect {} = (.ok c, ⟨2⟩) ∧
      l.statement = superiors ∧
      superiors.columnUses = [.field "users.name", .field "user.users.name", .field "username",
        .main "user.boss", .joined "users.user.id", .field "teams.id", .field "users.users.name",
        .field "user."] ∧
      List.Forall₂ (ColumnUse.Writes ShippedDialect.mysql.dialect l.scope) superiors.columnUses
        (Piece.tokens ShippedDialect.mysql.dialect (l.pieces.filter Piece.isColumn)) := by
  obtain ⟨c, hcompile⟩ :
      ∃ c, superiors.compile ShippedDialect.mysql.dialect {} = (.ok c, ⟨2⟩) := ⟨_, rfl⟩
  obtain ⟨-, runs, -, hstatements, -, hruns⟩ := Query.compile_resolves hcompile
  have hsuperiors : superiors ∈ runs.map Lowered.statement := by
    simp [hstatements, superiors, Query.statements]
  obtain ⟨l, hl, hstatement⟩ := List.mem_map.mp hsuperiors
  have hdots : ∀ t ∈ l.statement.tables, '.' ∉ t.name.toList := by
    rw [hstatement]
    decide
  exact ⟨c, l, hcompile, hstatement, rfl, hstatement ▸ (hruns l hl).2 hdots⟩

end BoundSql

import BoundSql.Proofs.Lowering.Mentions
import BoundSql.Proofs.Numbering

/-! # Aliases and the statements that declare them

A statement declares an alias where it writes a table together with it, and uses an alias before a
column and as the target of a deletion. All verbs but the insert declare the aliases of the scope
once each; an insert declares none, so that a column behind its verb has an alias without a
table. -/

namespace BoundSql

namespace Piece

/-- The tables that pieces declare with their aliases, without those of nested statements. -/
def declared (pieces : List Piece) : List (Table × Alias) :=
  pieces.filterMap fun
    | source t a => some (t, a)
    | _ => none

/-- A column or a target has one of the given aliases, and no table or column stands without an
alias. -/
def Qualified (aliases : List Alias) : Piece → Prop
  | column a _ | target a => a ∈ aliases
  | table _ | name _ | proposed _ => False
  | word _ | call _ | slot _ | source _ _ | nested _ => True

/-- The piece is a table together with its alias. -/
def isSource : Piece → Bool
  | source _ _ => true
  | _ => false

/-- The piece is the target of a deletion. -/
def isTarget : Piece → Bool
  | target _ => true
  | _ => false

/-- The piece is a column that has the alias of its table before it. -/
def isColumn : Piece → Bool
  | column _ _ => true
  | _ => false

@[simp] theorem declared_append (left right : List Piece) :
    declared (left ++ right) = declared left ++ declared right :=
  List.filterMap_append

@[simp] theorem declared_source_cons (t : Table) (a : Alias) (rest : List Piece) :
    declared (.source t a :: rest) = (t, a) :: declared rest :=
  rfl

theorem declared_mentions (pieces : List Piece) : declared (mentions pieces) = declared pieces := by
  rw [declared, mentions, List.filterMap_filter]
  refine congrArg (List.filterMap · pieces) (funext fun piece => ?_)
  cases piece <;> rfl

theorem filter_isColumn_mentions (pieces : List Piece) :
    (mentions pieces).filter isColumn = pieces.filter isColumn := by
  rw [mentions, List.filter_filter]
  refine congrArg (List.filter · pieces) (funext fun piece => ?_)
  cases piece <;> rfl

/-- What is no mention has no alias to answer for. -/
theorem qualified_of_mentions {aliases : List Alias} {pieces : List Piece}
    (h : ∀ piece ∈ mentions pieces, piece.Qualified aliases) :
    ∀ piece ∈ pieces, piece.Qualified aliases := by
  intro piece hmem
  by_cases hmention : piece.isMention = true
  · exact h piece (mem_mentions.mpr ⟨hmem, hmention⟩)
  · cases piece with
    | word _ | call _ | slot _ | nested _ => trivial
    | _ => exact absurd rfl hmention

/-! ### How they are written -/

variable {d : Dialect} {aliases : List Alias} {pieces : List Piece}

/-- A declared table is written with its alias behind it. -/
theorem tokens_filter_isSource :
    tokens d (pieces.filter isSource) = (declared pieces).flatMap fun (t, a) =>
      [.text (d.table t), .text "AS", .text (d.quote a.name)] := by
  induction pieces with
  | nil => rfl
  | cons piece rest ih =>
      cases piece with
      | source t a =>
          rw [List.filter_cons_of_pos rfl, tokens_cons, ih, declared_source_cons,
            List.flatMap_cons]
          rfl
      | _ => exact ih

/-- A column is written behind the alias it has. -/
theorem tokens_filter_isColumn (h : ∀ piece ∈ pieces, piece.Qualified aliases) :
    ∀ token ∈ tokens d (pieces.filter isColumn),
      ∃ a ∈ aliases, ∃ own, token = .text (d.column a.name own) := by
  intro token htoken
  obtain ⟨piece, hpiece, htoken⟩ := (mem_tokens d).mp htoken
  obtain ⟨hmem, hcolumn⟩ := List.mem_filter.mp hpiece
  cases piece with
  | column a own => exact ⟨a, h _ hmem, own, List.mem_singleton.mp htoken⟩
  | _ => cases hcolumn

/-- A target is written as the alias it has. -/
theorem tokens_filter_isTarget (h : ∀ piece ∈ pieces, piece.Qualified aliases) :
    ∀ token ∈ tokens d (pieces.filter isTarget),
      ∃ a ∈ aliases, token = .text (d.quote a.name) := by
  intro token htoken
  obtain ⟨piece, hpiece, htoken⟩ := (mem_tokens d).mp htoken
  obtain ⟨hmem, htarget⟩ := List.mem_filter.mp hpiece
  cases piece with
  | target a => exact ⟨a, h _ hmem, List.mem_singleton.mp htoken⟩
  | _ => cases htarget

end Piece

namespace Scope

variable (s : Scope)

/-- A name is resolved to a column of one of the tables of the scope. -/
theorem resolve_eq (name : String) :
    ∃ a own, s.resolve name = .column a own ∧ a ∈ s.references.map Prod.snd := by
  have hcolumn : ∃ a own, s.resolve name = .column a own := by
    unfold resolve
    split
    · split <;> exact ⟨_, _, rfl⟩
    · exact ⟨_, _, rfl⟩
  obtain ⟨a, own, h⟩ := hcolumn
  have hwithin := s.resolve_within name
  rw [h] at hwithin
  exact ⟨a, own, h, hwithin⟩

theorem declared_resolve (names : List String) : Piece.declared (names.map s.resolve) = [] := by
  rw [Piece.declared, List.filterMap_map, List.filterMap_eq_nil_iff]
  intro name _
  obtain ⟨a, own, hname, -⟩ := s.resolve_eq name
  simp [hname]

theorem qualified_resolve (names : List String) :
    ∀ piece ∈ names.map s.resolve, piece.Qualified (s.references.map Prod.snd) := by
  intro piece hpiece
  obtain ⟨name, -, rfl⟩ := List.mem_map.mp hpiece
  obtain ⟨a, own, hname, ha⟩ := s.resolve_eq name
  rw [hname]
  exact ha

theorem filter_isColumn_resolve (names : List String) :
    (names.map s.resolve).filter Piece.isColumn = names.map s.resolve := by
  rw [List.filter_eq_self]
  intro piece hpiece
  obtain ⟨name, -, rfl⟩ := List.mem_map.mp hpiece
  obtain ⟨a, own, hname, -⟩ := s.resolve_eq name
  rw [hname]
  rfl

theorem declared_joinMentions :
    (s.table, s.mainAlias) :: Piece.declared s.joinMentions = s.references := by
  unfold joinMentions references
  cases s.join <;> rfl

theorem qualified_joinMentions :
    ∀ piece ∈ s.joinMentions, piece.Qualified (s.references.map Prod.snd) := by
  unfold joinMentions
  cases hjoin : s.join with
  | none => simp
  | some joined =>
      obtain ⟨join, a⟩ := joined
      have hjoined : a ∈ s.references.map Prod.snd :=
        List.mem_map_of_mem (s.mem_references_of_join hjoin)
      simp only [List.forall_mem_cons]
      exact ⟨trivial, s.mainAlias_mem, hjoined, by simp⟩

end Scope

/-! ## Verbs that declare their aliases -/

namespace Statement

variable {s : Scope} {upsert : Option Upsert} {action : Action}

theorem declared_actionMentions (h : action.isInsert = false) :
    Piece.declared (actionMentions s upsert action) = s.references := by
  cases action with
  | select fields =>
      rw [actionMentions, Piece.declared_append, s.declared_resolve, List.nil_append,
        Piece.declared_source_cons, s.declared_joinMentions]
  | update assignments =>
      have hassigned : Piece.declared (assignments.columns.map s.mainColumn) = [] := by
        simp [Piece.declared, Scope.mainColumn, Scope.tableColumn, List.filterMap_map,
          Function.comp_def]
      rw [actionMentions, Piece.declared_source_cons, Piece.declared_append, hassigned,
        List.append_nil, s.declared_joinMentions]
  | insert rows mode => cases h
  | delete =>
      have htarget :
          Piece.declared (if s.join.isSome then [.target s.mainAlias] else []) = [] := by
        split <;> rfl
      rw [actionMentions, Piece.declared_append, htarget, List.nil_append,
        Piece.declared_source_cons, s.declared_joinMentions]

theorem qualified_actionMentions (h : action.isInsert = false) :
    ∀ piece ∈ actionMentions s upsert action, piece.Qualified (s.references.map Prod.snd) := by
  have htable : ∀ piece ∈ Piece.source s.table s.mainAlias :: s.joinMentions,
      piece.Qualified (s.references.map Prod.snd) :=
    List.forall_mem_cons.mpr ⟨trivial, s.qualified_joinMentions⟩
  cases action with
  | select fields =>
      exact List.forall_mem_append.mpr ⟨s.qualified_resolve _, htable⟩
  | update assignments =>
      refine List.forall_mem_append.mpr ⟨htable, fun piece hpiece => ?_⟩
      obtain ⟨name, -, rfl⟩ := List.mem_map.mp hpiece
      exact s.mainAlias_mem
  | insert rows mode => cases h
  | delete =>
      refine List.forall_mem_append.mpr ⟨fun piece hpiece => ?_, htable⟩
      split at hpiece
      · obtain rfl := List.mem_singleton.mp hpiece
        exact s.mainAlias_mem
      · cases hpiece

end Statement

/-- The statement of a query is an insert. -/
def Query.isInsert (q : Query) : Bool :=
  q.action.any Action.isInsert

/-- A statement writes the tables that it refers to with their aliases, once each, in letters that
differ, and uses these aliases only, wherever it names a column or a target. In a dialect every one
of these tables is a token with `AS` and the alias behind it, every column is one behind such an
alias, and every target is such an alias. -/
structure Lowered.WellScoped (d : Dialect) (l : Lowered) : Prop where
  tables_eq : l.scope.references.map Prod.fst = l.statement.tables
  declared_eq : Piece.declared l.pieces = l.scope.references
  letters_differ : (l.scope.references.map fun (_, a) => a.letter).Nodup
  qualified : ∀ piece ∈ l.pieces, piece.Qualified (l.scope.references.map Prod.snd)
  tokens_sources : Piece.tokens d (l.pieces.filter Piece.isSource) =
    l.scope.references.flatMap fun (t, a) =>
      [.text (d.table t), .text "AS", .text (d.quote a.name)]
  tokens_columns : ∀ token ∈ Piece.tokens d (l.pieces.filter Piece.isColumn),
    ∃ a ∈ l.scope.references.map Prod.snd, ∃ own, token = .text (d.column a.name own)
  tokens_targets : ∀ token ∈ Piece.tokens d (l.pieces.filter Piece.isTarget),
    ∃ a ∈ l.scope.references.map Prod.snd, token = .text (d.quote a.name)

theorem Query.length_tables_le (q : Query) : q.tables.length ≤ 2 := by
  unfold tables
  cases q.table <;> cases q.join <;> simp

theorem numbered_tables (tables : List Table) (position : Nat) :
    (numbered tables position).map Prod.fst = tables := by
  rw [numbered, List.map_map]
  exact List.zipIdx_map_fst position tables

/-- A statement that is no insert is well scoped, wherever in the supply it starts. -/
theorem Lowered.Runs.wellScoped {v : Vocabulary} {l : Lowered} (h : l.Runs v)
    (hinsert : l.statement.isInsert = false) (d : Dialect) : l.WellScoped d := by
  obtain ⟨entered, after, hs, hrun⟩ := h
  obtain ⟨s, _, action, hs', haction, hmentions⟩ := Compile.mentions_query hrun
  obtain ⟨rfl, rfl⟩ : l.scope = s ∧ entered = _ := by simpa using hs.symm.trans hs'
  have haction : action.isInsert = false := by simpa [Query.isInsert, haction] using hinsert
  obtain ⟨-, hreferences, -⟩ := Scope.enter?_eq_some hs
  have htables : l.scope.references = numbered l.statement.tables l.scope.mainAlias.position :=
    hreferences
  have hdeclared : Piece.declared l.pieces = l.scope.references := by
    rw [← Piece.declared_mentions, hmentions, Piece.declared_append,
      Statement.declared_actionMentions haction, Scope.declared_resolve, List.append_nil]
  have hqualified : ∀ piece ∈ l.pieces, piece.Qualified (l.scope.references.map Prod.snd) := by
    refine Piece.qualified_of_mentions ?_
    rw [hmentions]
    exact List.forall_mem_append.mpr
      ⟨Statement.qualified_actionMentions haction, l.scope.qualified_resolve _⟩
  exact {
    tables_eq := by rw [htables, numbered_tables]
    declared_eq := hdeclared
    letters_differ := by
      rw [htables]
      exact nodup_letter_numbered (Nat.le_trans l.statement.length_tables_le (by decide)) _
    qualified := hqualified
    tokens_sources := by rw [Piece.tokens_filter_isSource, hdeclared]
    tokens_columns := Piece.tokens_filter_isColumn hqualified
    tokens_targets := Piece.tokens_filter_isTarget hqualified }

/-- Where no statement of a query is an insert, every one of them declares the aliases of its own
tables, each once, and uses no others. -/
theorem Query.compile_scoped {d : Dialect} {q : Query} {supply after : AliasSupply} {c : Clause}
    (h : q.compile d supply = (.ok c, after)) (hq : ∀ r ∈ q.statements, r.isInsert = false) :
    ∃ (pieces : List Piece) (runs : List Lowered),
      c = Clause.ofPieces d pieces ∧
      runs.map Lowered.statement = q.statements ∧
      runs.map Lowered.pieces = pieces :: Piece.allStatements pieces ∧
      ∀ l ∈ runs, l.Runs d.toVocabulary ∧ l.WellScoped d := by
  obtain ⟨pieces, hpieces, rfl⟩ := compile_ok.mp h
  obtain ⟨runs, hruns⟩ := Compile.numbers_query q hpieces
  refine ⟨pieces, runs, rfl, hruns.statements_eq, hruns.bodies_eq, fun l hl => ?_⟩
  have hstatement : l.statement ∈ q.statements :=
    hruns.statements_eq ▸ List.mem_map_of_mem hl
  have hrun := hruns.all_run l hl
  exact ⟨hrun, hrun.wellScoped (hq l.statement hstatement) d⟩

/-- With a join, with statements nested two deep, and with letters that start again. -/
theorem Query.compile_scoped_largeOrders :
    (∀ r ∈ largeOrders.statements, r.isInsert = false) ∧
      ∃ (c : Clause) (runs : List Lowered),
        largeOrders.compile ShippedDialect.ansi.dialect ⟨24⟩ = (.ok c, ⟨29⟩) ∧
        runs.map Lowered.statement = largeOrders.statements ∧
        ∀ l ∈ runs, l.WellScoped ShippedDialect.ansi.dialect := by
  have hq : ∀ r ∈ largeOrders.statements, r.isInsert = false := by
    simp [largeOrders, Query.statements, Condition.optionStatements, Condition.statements,
      Operand.statements, Query.isInsert, Action.isInsert]
  obtain ⟨c, hcompile⟩ :
      ∃ c, largeOrders.compile ShippedDialect.ansi.dialect ⟨24⟩ = (.ok c, ⟨29⟩) := ⟨_, rfl⟩
  obtain ⟨-, runs, -, hstatements, -, hruns⟩ := Query.compile_scoped hcompile hq
  exact ⟨hq, c, runs, hcompile, hstatements, fun l hl => (hruns l hl).2⟩

/-! ## Inserts -/

namespace Piece

/-- A table or a column that has no alias. -/
def Unaliased : Piece → Prop
  | table _ | name _ | proposed _ => True
  | word _ | call _ | slot _ | source _ _ | target _ | column _ _ | nested _ => False

variable {pieces : List Piece}

theorem declared_of_unaliased (h : ∀ piece ∈ pieces, piece.Unaliased) : declared pieces = [] := by
  rw [declared, List.filterMap_eq_nil_iff]
  intro piece hpiece
  have hunaliased := h piece hpiece
  cases piece with
  | source t a => exact hunaliased.elim
  | _ => rfl

theorem filter_isColumn_of_unaliased (h : ∀ piece ∈ pieces, piece.Unaliased) :
    pieces.filter isColumn = [] := by
  rw [List.filter_eq_nil_iff]
  intro piece hpiece
  have hunaliased := h piece hpiece
  cases piece with
  | column a own => exact hunaliased.elim
  | _ => exact Bool.false_ne_true

end Piece

/-- An insert names its table and its columns without aliases, and its join not at all. -/
theorem Statement.unaliased_actionMentions (s : Scope) (upsert : Option Upsert) {action : Action}
    (h : action.isInsert = true) : ∀ piece ∈ actionMentions s upsert action, piece.Unaliased := by
  cases action with
  | insert rows mode =>
      cases rows with
      | nil => simp [actionMentions]
      | cons first rest =>
          have hcolumns : ∀ columns : List String,
              ∀ piece ∈ columns.map Piece.name, piece.Unaliased := by
            simp [Piece.Unaliased]
          have hupsert : ∀ piece ∈ upsertMentions upsert first.columns, piece.Unaliased := by
            rcases upsert with _ | _ | assignments
            · simp [upsertMentions]
            · intro piece hpiece
              obtain ⟨column, -, hpiece⟩ := List.mem_flatMap.mp hpiece
              simp only [List.mem_cons, List.not_mem_nil, or_false] at hpiece
              rcases hpiece with rfl | rfl <;> trivial
            · exact hcolumns assignments.columns
          exact List.forall_mem_cons.mpr
            ⟨trivial, List.forall_mem_append.mpr ⟨hcolumns first.columns, hupsert⟩⟩
  | _ => cases h

/-- An insert declares no alias. The columns in it that have one are those that the clauses behind
the verb name, so that there is no such column exactly when these clauses name none. -/
theorem Query.compile_insert {d : Dialect} {q : Query} {supply after : AliasSupply} {c : Clause}
    (h : q.compile d supply = (.ok c, after)) (hq : q.isInsert = true) :
    ∃ s entered pieces,
      Scope.enter? q.table q.join supply = some (s, entered) ∧
      c = Clause.ofPieces d pieces ∧
      Piece.declared pieces = [] ∧
      pieces.filter Piece.isColumn = q.clauseColumns.map s.resolve ∧
      ((∀ a ∈ s.references.map Prod.snd, ∀ own, .column a own ∉ pieces) ↔
        q.clauseColumns = []) := by
  obtain ⟨pieces, hpieces, rfl⟩ := compile_ok.mp h
  obtain ⟨s, entered, action, hs, haction, hmentions⟩ := Compile.mentions_query hpieces
  have hinsert : action.isInsert = true := by simpa [isInsert, haction] using hq
  have hunaliased := Statement.unaliased_actionMentions s q.upsert hinsert
  have hcolumns : pieces.filter Piece.isColumn = q.clauseColumns.map s.resolve := by
    rw [← Piece.filter_isColumn_mentions, hmentions, List.filter_append,
      Piece.filter_isColumn_of_unaliased hunaliased, s.filter_isColumn_resolve, List.nil_append]
  refine ⟨s, entered, pieces, hs, rfl, ?_, hcolumns, ?_, ?_⟩
  · rw [← Piece.declared_mentions, hmentions, Piece.declared_append,
      Piece.declared_of_unaliased hunaliased, s.declared_resolve, List.append_nil]
  · intro hnone
    rw [List.eq_nil_iff_forall_not_mem]
    intro name hname
    obtain ⟨a, own, hresolve, ha⟩ := s.resolve_eq name
    have hmem : s.resolve name ∈ pieces.filter Piece.isColumn :=
      hcolumns ▸ List.mem_map_of_mem hname
    rw [hresolve] at hmem
    exact hnone a ha own (List.mem_filter.mp hmem).1
  · intro hnone a _ own hmem
    have hcolumn : Piece.column a own ∈ pieces.filter Piece.isColumn :=
      List.mem_filter.mpr ⟨hmem, rfl⟩
    rw [hcolumns, hnone] at hcolumn
    cases hcolumn

/-- A user is added unless the key is there, in which case the name is set. -/
def Query.addUser : Query where
  table := some ⟨"users", none⟩
  action := some (.insert [⟨[("id", .int 7), ("name", .string "Ann")]⟩] .insert)
  limit := some 1
  upsert := some (.assign ⟨[("name", .string "Ann")]⟩)

/-- Without columns behind the verb no column has an alias. -/
theorem Query.compile_insert_addUser :
    ∃ s entered pieces after,
      Scope.enter? addUser.table addUser.join {} = some (s, entered) ∧
      addUser.compile ShippedDialect.mysql.dialect {} =
        (.ok (Clause.ofPieces ShippedDialect.mysql.dialect pieces), after) ∧
      ∀ a ∈ s.references.map Prod.snd, ∀ own, .column a own ∉ pieces := by
  obtain ⟨c, after, hcompile⟩ :
      ∃ c after, addUser.compile ShippedDialect.mysql.dialect {} = (.ok c, after) := ⟨_, _, rfl⟩
  obtain ⟨s, entered, pieces, hs, rfl, -, -, hnone⟩ := Query.compile_insert hcompile rfl
  exact ⟨s, entered, pieces, after, hs, hcompile, hnone.mpr rfl⟩

/-- A user is added, and a condition stands behind it. -/
def Query.addUserWhere : Query where
  table := some ⟨"users", none⟩
  action := some (.insert [⟨[("id", .int 7)]⟩] .insert)
  filter := some (.group .and [.compare (.named "id") .gt (.literal (.int 10))])

/-- The condition compares a column of the main alias, which the insert has not declared. -/
theorem Query.not_compile_insert_addUserWhere :
    addUserWhere.isInsert = true ∧
      ∃ s entered pieces after,
        Scope.enter? addUserWhere.table addUserWhere.join {} = some (s, entered) ∧
        addUserWhere.compile ShippedDialect.mysql.dialect {} =
          (.ok (Clause.ofPieces ShippedDialect.mysql.dialect pieces), after) ∧
        .column s.mainAlias "id" ∈ pieces ∧ Piece.declared pieces = [] := by
  exact ⟨rfl, _, _, _, _, rfl, rfl, List.mem_of_getElem? (i := 11) rfl, rfl⟩

end BoundSql

import BoundSql.Proofs.Rendering

/-! # The spaces of a statement

Every part of a statement is a phrase: it stands a space apart from what is before and behind it,
unless a bracket or a comma is between them. So the text of a query is its rendering. -/

namespace BoundSql

open Token (Phrase opensTight closesTight)

/-- The text stands a space apart from its neighbours. -/
def Bare (text : String) : Prop :=
  text ≠ "" ∧ opensTight text.toList = false ∧ closesTight text.toList = false

/-- A function of this name stands a space apart from what is before it. -/
def Callable (name : String) : Prop :=
  opensTight name.toList = false

instance (text : String) : Decidable (Bare text) :=
  inferInstanceAs (Decidable (_ ∧ _))

/-- The pieces are written as a phrase of the text. -/
def Writes (k : ShippedDialect) (pieces : List Piece) (text : String) : Prop :=
  Phrase (Piece.tokens k.dialect pieces) text

namespace Writes

variable {k : ShippedDialect} {left right body pieces : List Piece} {a b text w : String}

theorem word (h : Bare w) : Writes k [.word w] w := by
  have hword := Phrase.word h.1 h.2.1 h.2.2
  simpa [Writes] using hword

theorem append (h : Writes k left a) (hright : Writes k right b) :
    Writes k (left ++ right) (a ++ " " ++ b) := by
  have hall := Phrase.append h hright
  simpa [Writes] using hall

theorem word_cons (hw : Bare w) (h : Writes k pieces text) :
    Writes k (.word w :: pieces) (w ++ " " ++ text) :=
  (word hw).append h

theorem bracketed (h : Writes k body text) :
    Writes k (Piece.bracketed body) ("(" ++ text ++ ")") := by
  have hall := Phrase.bracketed h
  simpa [Writes] using hall

theorem call {name : String} (hname : Callable name) (h : Writes k pieces text) :
    Writes k (.call name :: pieces) (name ++ text) := by
  have hall := Phrase.call hname h
  simpa [Writes, Piece.tokens_cons, Piece.items, Item.toToken] using hall

theorem separated {parts : List (List Piece)} {texts : List String} {glue : String}
    (hglue : Token.Between (.text w) glue) (hne : texts ≠ [])
    (h : List.Forall₂ (Writes k) parts texts) :
    Writes k (Piece.separated w parts) (glue.intercalate texts) := by
  have hparts : parts.map (Piece.tokens k.dialect) ≠ [] := by
    cases h with
    | nil => exact absurd rfl hne
    | cons _ _ => simp
  have hphrases : List.Forall₂ Phrase (parts.map (Piece.tokens k.dialect)) texts :=
    List.forall₂_map_left_iff.mpr h
  have hall := Phrase.intercalate hglue hparts hphrases
  simpa [Writes, Piece.tokens_separated] using hall

theorem between_comma : Token.Between (.text ", ") ", " :=
  Phrase.between_mark (by decide) (by decide) (by decide)

/-- A list is written with commas between its entries. -/
theorem list {parts : List (List Piece)} {texts : List String} (hne : texts ≠ [])
    (h : List.Forall₂ (Writes k) parts texts) :
    Writes k (Piece.separated ", " parts) (", ".intercalate texts) :=
  separated between_comma hne h

end Writes

namespace ShippedDialect

variable (k : ShippedDialect)

/-! ## Names -/

/-- The text has the quote at both ends. -/
def Enclosed (text : String) : Prop :=
  text.toList.head? = some k.mark ∧ text.toList.getLast? = some k.mark

variable {k}

theorem Enclosed.bare {text : String} (h : k.Enclosed text) : Bare text := by
  obtain ⟨hhead, hlast⟩ := h
  refine ⟨?_, ?_, ?_⟩
  · rintro rfl
    simp at hhead
  · have hmark := k.opensTight_mark
    simpa [opensTight, hhead] using hmark
  · have hmark := k.closesTight_mark
    simpa [closesTight, hlast] using hmark

theorem Enclosed.append {a b : String} (ha : k.Enclosed a) (hb : k.Enclosed b) (between : String) :
    k.Enclosed (a ++ between ++ b) := by
  constructor
  · rw [String.toList_append, String.toList_append, List.append_assoc, List.head?_append, ha.1]
    rfl
  · rw [String.toList_append, List.getLast?_append, hb.2]
    rfl

variable (k)

theorem enclosed_nameText (name : String) : k.Enclosed (k.nameText name) := by
  rw [Enclosed, nameText, Identifier.quote, String.toList_ofList]
  exact ⟨Identifier.head?_quoteChars _ _, Identifier.getLast?_quoteChars _ _⟩

theorem enclosed_columnText (a : Alias) (column : String) : k.Enclosed (k.columnText a column) :=
  (k.enclosed_nameText a.name).append (k.enclosed_nameText column) "."

theorem enclosed_tableText (t : Table) : k.Enclosed (k.tableText t) := by
  rw [tableText]
  cases t.schema with
  | none => exact k.enclosed_nameText t.name
  | some schema => exact (k.enclosed_nameText schema).append (k.enclosed_nameText t.name) "."

theorem writes_slot (value : Value) : Writes k [.slot value] "%s" := by
  have hmarker := Phrase.word (w := "%s") (by decide) (by decide) (by decide)
  simpa [Writes, Piece.tokens_cons, Piece.items, Item.toToken, k.placeholder_eq] using hmarker

/-- A piece that is written as one name or as two with a dot between them. -/
theorem writes_of_tokens {piece : Piece} {text : String} (h : k.Enclosed text)
    (htokens : Piece.tokens k.dialect [piece] = [.text text]) : Writes k [piece] text := by
  obtain ⟨hne, hopens, hcloses⟩ := h.bare
  rw [Writes, htokens]
  exact Phrase.word hne hopens hcloses

theorem writes_name (name : String) : Writes k [.name name] (k.nameText name) :=
  k.writes_of_tokens (k.enclosed_nameText name)
    (by simp [Piece.tokens_cons, Piece.items, Item.toToken, k.quote_eq, nameText])

theorem writes_target (a : Alias) : Writes k [.target a] (k.nameText a.name) :=
  k.writes_of_tokens (k.enclosed_nameText a.name)
    (by simp [Piece.tokens_cons, Piece.items, Item.toToken, k.quote_eq, nameText])

theorem writes_column (a : Alias) (column : String) :
    Writes k [.column a column] (k.columnText a column) :=
  k.writes_of_tokens (k.enclosed_columnText a column)
    (by simp [Piece.tokens_cons, Piece.items, Item.toToken, k.column_eq, columnText, nameText])

theorem table_eq_tableText (t : Table) : k.dialect.table t = k.tableText t := by
  rw [k.table_eq, tableText]
  cases t.schema <;> rfl

theorem writes_table (t : Table) : Writes k [.table t] (k.tableText t) :=
  k.writes_of_tokens (k.enclosed_tableText t)
    (by simp [Piece.tokens_cons, Piece.items, Item.toToken, k.table_eq_tableText])

theorem writes_source (t : Table) (a : Alias) : Writes k [.source t a] (k.sourceText t a) := by
  have has : Writes k [.word "AS"] "AS" := .word (by decide)
  have hall := ((k.writes_table t).append has).append (k.writes_target a)
  have htext : k.tableText t ++ " " ++ "AS" ++ " " ++ k.nameText a.name = k.sourceText t a := by
    simp [sourceText, String.append_assoc]
  rw [htext] at hall
  simpa [Writes, Piece.tokens_cons, Piece.items, Item.toToken] using hall

theorem writes_proposed (column : String) :
    Writes k [.proposed column] ("VALUES(" ++ k.nameText column ++ ")") := by
  have hall := Phrase.call (w := "VALUES") (by decide) (k.writes_name column).bracketed
  have htext : "VALUES" ++ ("(" ++ k.nameText column ++ ")") =
      "VALUES(" ++ k.nameText column ++ ")" := by
    have hopen : "VALUES" ++ "(" = "VALUES(" := by decide
    rw [← String.append_assoc, ← String.append_assoc, hopen]
  rw [htext] at hall
  simpa [Writes, Piece.tokens_cons, Piece.items, Item.toToken, k.proposed_eq, k.quote_eq] using hall

theorem writes_tableColumn (t : Table) (a : Alias) (name : String) :
    Writes k [Scope.tableColumn t a name] (k.tableColumnText t a name) :=
  k.writes_column a _

theorem writes_mainColumn (s : Scope) (name : String) :
    Writes k [s.mainColumn name] (k.mainColumnText s name) :=
  k.writes_tableColumn s.table s.mainAlias name

theorem writes_resolve (s : Scope) (name : String) :
    Writes k [s.resolve name] (k.resolvedText s name) := by
  rcases hjoin : s.join with _ | ⟨join, a⟩
  · simpa only [Scope.resolve, resolvedText, hjoin] using k.writes_mainColumn s name
  · cases hcolumn : Scope.columnOf? join.table.name name with
    | some column =>
        simpa only [Scope.resolve, resolvedText, hjoin, hcolumn] using k.writes_column a column
    | none =>
        simpa only [Scope.resolve, resolvedText, hjoin, hcolumn] using k.writes_mainColumn s name

end ShippedDialect

/-! ## Parts that may be missing -/

theorem Piece.tokens_flatten (d : Dialect) (parts : List (List Piece)) :
    Piece.tokens d parts.flatten = (parts.map (Piece.tokens d)).flatten := by
  induction parts with
  | nil => rfl
  | cons part rest ih => simp [ih]

/-- The pieces are written as a phrase of the text, or nothing is written and the text is empty. -/
def Shown (k : ShippedDialect) (pieces : List Piece) (text : String) : Prop :=
  Writes k pieces text ∨ Piece.tokens k.dialect pieces = [] ∧ text = ""

namespace Shown

variable {k : ShippedDialect} {pieces : List Piece} {text w : String}

theorem empty : Shown k [] "" :=
  .inr ⟨rfl, rfl⟩

theorem word (h : Bare w) : Shown k [.word w] w :=
  .inl (.word h)

/-- Parts one after the other stand a space apart, as if the missing ones were not there. -/
theorem sentence {parts : List (List Piece)} {texts : List String}
    (h : List.Forall₂ (Shown k) parts texts) : Shown k parts.flatten (sentence texts) := by
  have hphrases := Token.phrase_flatten (List.forall₂_map_left_iff.mpr h)
  rw [← Piece.tokens_flatten] at hphrases
  rcases hphrases with hphrase | ⟨hnone, htexts⟩
  · exact .inl hphrase
  · refine .inr ⟨hnone, ?_⟩
    rw [BoundSql.sentence, htexts]
    rfl

theorem bracketed (h : Shown k pieces text) :
    Writes k (Piece.bracketed pieces) ("(" ++ text ++ ")") := by
  rcases h with hwrites | ⟨hnone, rfl⟩
  · exact hwrites.bracketed
  · have hall := Phrase.empty_brackets
    simpa [Writes, hnone] using hall

/-- A list that may have no entries. -/
theorem list {parts : List (List Piece)} {texts : List String}
    (h : List.Forall₂ (Writes k) parts texts) :
    Shown k (Piece.separated ", " parts) (", ".intercalate texts) := by
  cases h with
  | nil => exact .empty
  | cons hpart hrest => exact .inl (.list (by simp) (.cons hpart hrest))

end Shown

namespace Statement

variable {k : ShippedDialect} {s : Scope} {pieces : List Piece}

/-! ## Fields -/

theorem callable_functionWord {name : String} (h : Callable name) :
    Callable (Vocabulary.functionWord name) := by
  have hwords : ∀ entry ∈ functionWords, Callable entry.2 := by
    unfold Callable
    decide
  exact Vocabulary.functionWord_of hwords h

mutual

theorem field_writes : (f : Field) → f.Verbatim Bare Callable → {pieces : List Piece} →
    field k.dialect.toVocabulary s f = .ok pieces → Writes k pieces (k.fieldText s f)
  | .named name, _, pieces, h => by
      cases h
      exact k.writes_resolve s name
  | .function name args, hf, pieces, h => by
      obtain ⟨hname, hargs⟩ := hf
      obtain ⟨w, hw, parts, hparts, rfl⟩ := field_function_ok.mp h
      rw [k.function_eq] at hw
      cases hw
      have hlist := Shown.list (fields_writes args hargs hparts)
      exact .call (callable_functionWord hname) hlist.bracketed
  | .raw text, hf, pieces, h => by
      cases h
      exact .word hf
termination_by structural x => x

theorem fields_writes : (fs : List Field) → Field.AllVerbatim Bare Callable fs →
    {parts : List (List Piece)} → fields k.dialect.toVocabulary s fs = .ok parts →
    List.Forall₂ (Writes k) parts (k.fieldTexts s fs)
  | [], _, parts, h => by
      cases h
      exact .nil
  | f :: rest, hf, parts, h => by
      obtain ⟨hfirst, hrest⟩ := hf
      obtain ⟨part, hpart, others, hothers, rfl⟩ := fields_cons_ok.mp h
      exact .cons (field_writes f hfirst hpart) (fields_writes rest hrest hothers)
termination_by structural x => x

end

theorem fieldTexts_eq_nil_iff {fs : List Field} : k.fieldTexts s fs = [] ↔ fs = [] := by
  cases fs <;> simp [ShippedDialect.fieldTexts]

/-! ## Clauses that verbs share -/

theorem joinClause_shown (h : joinClause k.dialect.toVocabulary s = .ok pieces) :
    Shown k pieces (k.joinText s) := by
  rcases hjoin : s.join with _ | ⟨join, a⟩
  · rw [joinClause_none hjoin] at h
    cases h
    simpa only [ShippedDialect.joinText, hjoin] using Shown.empty
  · obtain ⟨w, hw, rfl⟩ := (joinClause_some_ok hjoin).mp h
    rw [k.joinKind_eq] at hw
    cases hw
    have hkind : Bare (Vocabulary.joinWord join.kind) := by cases join.kind <;> decide
    have hparts := Shown.sentence (k := k) <|
      .cons (.word hkind) <| .cons (.inl (k.writes_source join.table a)) <|
      .cons (.word (w := "ON") (by decide)) <|
      .cons (.inl (k.writes_mainColumn s join.mainField)) <|
      .cons (.word (w := "=") (by decide)) <|
      .cons (.inl (k.writes_tableColumn join.table a join.joinField)) .nil
    simp only [ShippedDialect.joinText, hjoin]
    exact hparts

/-- A list behind a word, if there is anything in the list. -/
theorem listClause_shown {α : Type} {as : List α} {parts : List (List Piece)} {texts : List String}
    {w : String} (hw : Bare w) (hnone : texts = [] ↔ as = [])
    (h : List.Forall₂ (Writes k) parts texts) [Decidable (as = [])] :
    Shown k (if as = [] then [] else .word w :: Piece.separated ", " parts)
      (ShippedDialect.listText w texts) := by
  unfold ShippedDialect.listText
  by_cases has : as = []
  · rw [if_pos has, if_pos (hnone.mpr has)]
    exact .empty
  · have htexts : texts ≠ [] := fun htexts => has (hnone.mp htexts)
    rw [if_neg has, if_neg htexts]
    exact .inl (.word_cons hw (.list htexts h))

theorem groupByClause_shown {groupBy : List Field} (hg : Field.AllVerbatim Bare Callable groupBy)
    (h : groupByClause k.dialect.toVocabulary s groupBy = .ok pieces) :
    Shown k pieces (ShippedDialect.listText "GROUP BY" (k.fieldTexts s groupBy)) := by
  obtain ⟨parts, hparts, rfl⟩ := groupByClause_ok.mp h
  exact listClause_shown (by decide) fieldTexts_eq_nil_iff (fields_writes groupBy hg hparts)

theorem ordering_writes {entry : OrderBy} (hf : entry.field.Verbatim Bare Callable)
    (h : ordering k.dialect.toVocabulary s entry = .ok pieces) :
    Writes k pieces (k.orderText s entry) := by
  obtain ⟨part, hpart, rfl⟩ := ordering_ok.mp h
  have hfield := field_writes entry.field hf hpart
  cases hdirection : entry.direction with
  | none => simpa [ShippedDialect.orderText, hdirection] using hfield
  | some direction =>
      have hbare : Bare (Vocabulary.sortWord direction) := by cases direction <;> decide
      have hall := hfield.append (.word hbare)
      simpa [ShippedDialect.orderText, hdirection, k.sortOrder_eq] using hall

theorem orderings_writes {entries : List OrderBy} {parts : List (List Piece)}
    (ho : Field.AllVerbatim Bare Callable (entries.map OrderBy.field))
    (h : orderings k.dialect.toVocabulary s entries = .ok parts) :
    List.Forall₂ (Writes k) parts (entries.map (k.orderText s)) := by
  induction entries generalizing parts with
  | nil =>
      cases h
      exact .nil
  | cons entry rest ih =>
      obtain ⟨hentry, hrest⟩ := ho
      obtain ⟨part, hpart, others, hothers, rfl⟩ := orderings_cons_ok.mp h
      exact .cons (ordering_writes hentry hpart) (ih hrest hothers)

theorem orderByClause_shown {orderBy : List OrderBy}
    (ho : Field.AllVerbatim Bare Callable (orderBy.map OrderBy.field))
    (h : orderByClause k.dialect.toVocabulary s orderBy = .ok pieces) :
    Shown k pieces (ShippedDialect.listText "ORDER BY" (orderBy.map (k.orderText s))) := by
  obtain ⟨parts, hparts, rfl⟩ := orderByClause_ok.mp h
  exact listClause_shown (by decide) List.map_eq_nil_iff (orderings_writes ho hparts)

theorem countClause_shown {w : String} (hw : Bare w) (n : Option Int64) :
    Shown k (countClause w n) (ShippedDialect.countText w n) := by
  cases n with
  | none => exact .empty
  | some n =>
      have hall := Writes.word_cons hw (k.writes_slot (.int n))
      have htext : w ++ " " ++ "%s" = w ++ " %s" := by simp [String.append_assoc]
      rw [htext] at hall
      exact .inl hall

/-! ## Verbs -/

theorem assignment_writes {column : Piece} {text : String} (h : Writes k [column] text)
    (value : Value) : Writes k (assignment column value) (text ++ " = %s") := by
  have hequals : Writes k [.word "="] "=" := .word (by decide)
  have hall := (h.append hequals).append (k.writes_slot value)
  have htext : text ++ " " ++ "=" ++ " " ++ "%s" = text ++ " = %s" := by
    simp [String.append_assoc]
  rwa [htext] at hall

theorem assignments_writes {column : String → Piece} {text : String → String}
    (h : ∀ name, Writes k [column name] (text name)) (entries : List (String × Value)) :
    List.Forall₂ (Writes k)
      (entries.map fun (name, value) => assignment (column name) value)
      (ShippedDialect.assignmentTexts text entries) := by
  induction entries with
  | nil => exact .nil
  | cons entry rest ih => exact .cons (assignment_writes (h entry.1) entry.2) ih

/-- Single pieces, one for each of the values. -/
theorem singles_writes {α : Type} {piece : α → Piece} {text : α → String}
    (h : ∀ a, Writes k [piece a] (text a)) (as : List α) :
    List.Forall₂ (Writes k) (as.map fun a => [piece a]) (as.map text) := by
  induction as with
  | nil => exact .nil
  | cons a rest ih => exact .cons (h a) ih

theorem upsertClause_shown (upsert : Option Upsert) (columns : List String) :
    Shown k (upsertClause k.dialect.toVocabulary upsert columns)
      (k.upsertText columns upsert) := by
  have hbehind {parts : List (List Piece)} {texts : List String}
      (h : List.Forall₂ (Writes k) parts texts) :
      Shown k (.word k.dialect.upsert :: Piece.separated ", " parts)
        (sentence ["ON DUPLICATE KEY UPDATE", ", ".intercalate texts]) := by
    have hall := Shown.sentence <|
      .cons (Shown.word (k := k) (w := "ON DUPLICATE KEY UPDATE") (by decide)) <|
      .cons (Shown.list h) .nil
    simpa [k.upsert_eq] using hall
  rcases upsert with _ | _ | assignments
  · exact .empty
  · refine hbehind ?_
    induction columns with
    | nil => exact .nil
    | cons column rest ih =>
        have hequals : Writes k [.word "="] "=" := .word (by decide)
        have hall := ((k.writes_name column).append hequals).append (k.writes_proposed column)
        have htext : k.nameText column ++ " " ++ "=" ++ " " ++
            ("VALUES(" ++ k.nameText column ++ ")") =
              k.nameText column ++ " = VALUES(" ++ k.nameText column ++ ")" := by
          have hliteral : " = VALUES(" = " " ++ "=" ++ " " ++ "VALUES(" := by decide
          rw [hliteral]
          simp only [String.append_assoc]
        rw [htext] at hall
        exact .cons hall ih
  · exact hbehind (assignments_writes k.writes_name assignments.entries)

theorem length_cells {row : Row} {columns : List String}
    (h : ∀ column ∈ columns, row.contains column = true) :
    (row.cells columns).length = columns.length := by
  induction columns with
  | nil => rfl
  | cons column rest ih =>
      obtain ⟨hcolumn, hrest⟩ := List.forall_mem_cons.mp h
      obtain ⟨value, hvalue⟩ := Option.isSome_iff_exists.mp hcolumn
      have hcells : row.cells (column :: rest) = value :: row.cells rest := by
        simp [Row.cells, hvalue]
      rw [hcells, List.length_cons, List.length_cons, ih hrest]

theorem tuple_writes {row : Row} {columns : List String}
    (h : ∀ column ∈ columns, row.contains column = true) :
    Writes k (tuple columns row) (ShippedDialect.tupleText (columns.map fun _ => "%s")) := by
  have hslots := singles_writes (k := k) k.writes_slot (row.cells columns)
  have hmarkers : (row.cells columns).map (fun _ => "%s") = columns.map fun _ => "%s" := by
    rw [List.map_const', List.map_const', length_cells h]
  rw [hmarkers] at hslots
  exact (Shown.list hslots).bracketed

theorem insertClause_shown {rows : List Row} {mode : InsertMode} {upsert : Option Upsert}
    (h : insertClause k.dialect.toVocabulary s rows mode upsert = .ok pieces) :
    Shown k pieces (k.insertText s mode upsert rows) := by
  cases rows with
  | nil => cases h
  | cons first rest =>
      obtain ⟨-, -, w, hw, hcells, rfl⟩ := insertClause_ok.mp h
      rw [k.insertMode_eq] at hw
      cases hw
      have hbare : Bare (Vocabulary.insertWord mode) := by cases mode <;> decide
      have hnames : Writes k
          (Piece.bracketed (Piece.separated ", " (first.columns.map fun column => [.name column])))
          (ShippedDialect.tupleText (first.columns.map k.nameText)) :=
        (Shown.list (singles_writes k.writes_name first.columns)).bracketed
      have hrows : List.Forall₂ (Writes k) ((first :: rest).map (tuple first.columns))
          ((first :: rest).map fun _ =>
            ShippedDialect.tupleText (first.columns.map fun _ => "%s")) := by
        rw [List.forall₂_map_left_iff, List.forall₂_map_right_iff, List.forall₂_same]
        exact fun row hrow => tuple_writes (hcells row hrow)
      have hparts := Shown.sentence <|
        .cons (.word hbare) <| .cons (.inl (k.writes_table s.table)) <| .cons (.inl hnames) <|
        .cons (.word (w := "VALUES") (by decide)) <| .cons (.list hrows) <|
        .cons (upsertClause_shown upsert first.columns) .nil
      simpa [ShippedDialect.insertText] using hparts

/-- The clause of a verb. -/
theorem verbClause_shown {action : Option Action} {upsert : Option Upsert}
    (ha : ∀ a, action = some a → a.Verbatim Bare Callable)
    (h : verbClause k.dialect.toVocabulary s action upsert = .ok pieces) :
    Shown k pieces ((action.map (k.verbText s upsert)).getD "") := by
  obtain ⟨a, rfl, -, h⟩ := verbClause_ok.mp h
  have ha := ha a rfl
  have hsource : Shown k [.source s.table s.mainAlias] (k.sourceText s.table s.mainAlias) :=
    .inl (k.writes_source s.table s.mainAlias)
  have hfrom : Shown k [.word "FROM"] "FROM" := .word (by decide)
  cases a with
  | select selected =>
      obtain ⟨-, parts, hparts, join, hjoin, rfl⟩ := selectClause_ok.mp h
      have hfields := Shown.list (fields_writes selected ha hparts)
      have hall := Shown.sentence <|
        .cons (.word (w := "SELECT") (by decide)) <| .cons hfields <| .cons hfrom <|
        .cons hsource <| .cons (joinClause_shown hjoin) .nil
      simpa [ShippedDialect.verbText] using hall
  | update assignments =>
      obtain ⟨-, join, hjoin, rfl⟩ := updateClause_ok.mp h
      have hset := Shown.list (assignments_writes (k.writes_mainColumn s) assignments.entries)
      have hall := Shown.sentence <|
        .cons (.word (w := "UPDATE") (by decide)) <| .cons hsource <|
        .cons (joinClause_shown hjoin) <| .cons (.word (w := "SET") (by decide)) <|
        .cons hset .nil
      simpa [ShippedDialect.verbText] using hall
  | insert rows mode => exact insertClause_shown h
  | delete =>
      obtain ⟨join, hjoin, rfl⟩ := deleteClause_ok.mp h
      have htarget : Shown k (if s.join.isSome then [.target s.mainAlias] else [])
          (if s.join.isSome then k.nameText s.mainAlias.name else "") := by
        split
        · exact .inl (k.writes_target s.mainAlias)
        · exact .empty
      have hall := Shown.sentence <|
        .cons (.word (w := "DELETE") (by decide)) <| .cons htarget <| .cons hfrom <|
        .cons hsource <| .cons (joinClause_shown hjoin) .nil
      simpa [ShippedDialect.verbText] using hall

end Statement

/-! ## Conditions and queries -/

namespace Compile

open Statement

variable {k : ShippedDialect}

theorem comparison_writes {s : Scope} {f : Field} {op : Operator} {x : Operand}
    {supply after : AliasSupply} {pieces : List Piece} {text : String}
    (hf : f.Verbatim Bare Callable)
    (hx : ∀ {right}, (operand k.dialect.toVocabulary x).runFrom supply = (.ok right, after) →
      Writes k right text)
    (h : (comparison k.dialect.toVocabulary s f op (operand k.dialect.toVocabulary x)).runFrom
      supply = (.ok pieces, after)) :
    Writes k pieces (k.comparisonText s f op text) := by
  obtain ⟨w, hw, left, hleft, right, hright, rfl⟩ := comparison_ok.mp h
  have hbare : Bare w := by cases k <;> cases op <;> cases hw <;> decide
  have hword : k.operatorText op = w := by rw [ShippedDialect.operatorText, hw]
  have hall := ((field_writes f hf hleft).append (.word hbare)).append (hx hright)
  rw [ShippedDialect.comparisonText, hword]
  simpa using hall.bracketed

mutual

theorem operand_writes : (x : Operand) → x.Verbatim Bare Callable →
    {supply after : AliasSupply} → {pieces : List Piece} →
    (operand k.dialect.toVocabulary x).runFrom supply = (.ok pieces, after) →
    Writes k pieces (k.operandText supply x)
  | .literal value, _, supply, after, pieces, h => by
      cases h
      exact k.writes_slot value
  | .list values, _, supply, after, pieces, h => by
      obtain ⟨hne, rfl, -⟩ := operand_list_ok.mp h
      have hcomma : Token.Between (.text ",") "," :=
        Phrase.between_mark (by decide) (by decide) (by decide)
      have htexts : values.map (fun _ => "%s") ≠ [] := by simpa using hne
      exact (Writes.separated hcomma htexts (singles_writes k.writes_slot values)).bracketed
  | .null, _, supply, after, pieces, h => by
      cases h
      rw [k.null_eq]
      exact .word (by decide)
  | .subquery q, hx, supply, after, pieces, h => by
      obtain ⟨body, hbody, rfl⟩ := operand_subquery_ok.mp h
      have hall := (query_shown q hx hbody).bracketed
      simpa [Writes, ShippedDialect.operandText] using hall
termination_by structural x => x

theorem condition_writes : (c : Condition) → c.Verbatim Bare Callable → {s : Scope} →
    {supply after : AliasSupply} → {pieces : List Piece} →
    (condition k.dialect.toVocabulary s c).runFrom supply = (.ok pieces, after) →
    Writes k pieces (k.conditionText s supply c)
  | .compare f op x, hc, s, supply, after, pieces, h => by
      obtain ⟨hf, hx⟩ := hc
      rw [condition] at h
      exact comparison_writes hf (operand_writes x hx) h
  | .spec spec x, hc, s, supply, after, pieces, h => by
      obtain ⟨hspec, hx⟩ := hc
      obtain ⟨f, op, hparse, h⟩ := condition_spec_ok.mp h
      rw [ShippedDialect.conditionText, hparse]
      exact comparison_writes (hspec f op hparse) (operand_writes x hx) h
  | .group op conditions, hc, s, supply, after, pieces, h => by
      obtain ⟨hne, parts, hparts, rfl⟩ := condition_group_ok.mp h
      have hbare : Bare (Vocabulary.logicalWord op) := by cases op <;> decide
      have hbetween : Token.Between (.text (Vocabulary.logicalWord op))
          (" " ++ Vocabulary.logicalWord op ++ " ") :=
        Phrase.between_word (Phrase.word hbare.1 hbare.2.1 hbare.2.2)
      have htexts : k.childTexts s supply conditions ≠ [] := by
        cases conditions with
        | nil => exact absurd rfl hne
        | cons c rest => simp [ShippedDialect.childTexts]
      rw [k.logical_eq]
      exact .separated hbetween htexts (children_write conditions hc hparts)
termination_by structural x => x

theorem children_write : (conditions : List Condition) →
    Condition.AllVerbatim Bare Callable conditions → {s : Scope} →
    {supply after : AliasSupply} → {parts : List (List Piece)} →
    (children k.dialect.toVocabulary s conditions).runFrom supply = (.ok parts, after) →
    List.Forall₂ (Writes k) parts (k.childTexts s supply conditions)
  | [], _, s, supply, after, parts, h => by
      cases h
      exact .nil
  | c :: rest, hc, s, supply, after, parts, h => by
      obtain ⟨hfirst, hrest⟩ := hc
      obtain ⟨part, between, hpart, others, hothers, rfl⟩ := children_cons_ok.mp h
      obtain ⟨runs, hruns⟩ := numbers_condition c hpart
      obtain rfl := hruns.after_eq
      have hwrites := condition_writes c hfirst hpart
      have hchild : Writes k (if c.isGroup then Piece.bracketed part else part)
          (if c.isGroup then "(" ++ k.conditionText s supply c ++ ")"
            else k.conditionText s supply c) := by
        split
        · exact hwrites.bracketed
        · exact hwrites
      exact .cons hchild (children_write rest hrest hothers)
termination_by structural x => x

theorem conditionClause_shown {w : String} (hw : Bare w) : (c : Option Condition) →
    Condition.OptionVerbatim Bare Callable c → {s : Scope} → {supply after : AliasSupply} →
    {pieces : List Piece} →
    (conditionClause k.dialect.toVocabulary s w c).runFrom supply = (.ok pieces, after) →
    Shown k pieces (k.conditionClauseText s supply w c)
  | none, _, s, supply, after, pieces, h => by
      cases h
      exact .empty
  | some c, hc, s, supply, after, pieces, h => by
      obtain ⟨part, hpart, rfl⟩ := conditionClause_some_ok.mp h
      exact .inl (.word_cons hw (condition_writes c hc hpart))
termination_by structural x => x

/-- A query is written as its rendering. -/
theorem query_shown : (q : Query) → q.Verbatim Bare Callable → {supply after : AliasSupply} →
    {pieces : List Piece} →
    (query k.dialect.toVocabulary q).runFrom supply = (.ok pieces, after) →
    Shown k pieces (k.queryText supply q)
  | ⟨action, table, join, filter, having, orderBy, groupBy, limit, offset, upsert⟩, hq, supply,
    after, pieces, h => by
      obtain ⟨haction, hwhere, hgroupBy, hhad, hordered⟩ := hq
      obtain ⟨s, entered, verb, filterPart, filtered, groupPart, havingPart, orderPart, hs, hverb,
        hfilter, hgroup, hhaving, horder, rfl⟩ := query_ok.mp h
      dsimp only at hs hverb hfilter hgroup hhaving horder
      obtain ⟨runs, hruns⟩ := numbers_conditionClause "WHERE" filter hfilter
      obtain rfl := hruns.after_eq
      have hall := Shown.sentence <|
        .cons (verbClause_shown haction hverb) <|
        .cons (conditionClause_shown (by decide) filter hwhere hfilter) <|
        .cons (groupByClause_shown hgroupBy hgroup) <|
        .cons (conditionClause_shown (by decide) having hhad hhaving) <|
        .cons (orderByClause_shown hordered horder) <|
        .cons (countClause_shown (w := "OFFSET") (by decide) offset) <|
        .cons (countClause_shown (w := "LIMIT") (by decide) limit) .nil
      rw [ShippedDialect.queryText, hs]
      simpa [offsetClause, limitClause] using hall
termination_by structural x => x

end

end Compile

/-- Where raw texts and function names do not take part in the spacing, the text of a query is its
rendering. -/
theorem Query.toSql_eq_queryText {k : ShippedDialect} {q : Query} {text : String}
    {args : List Value} (h : q.toSql k.dialect = .ok (text, args))
    (hq : q.Verbatim Bare Callable) : text = k.queryText {} q := by
  obtain ⟨pieces, after, hpieces, rfl, -⟩ := toSql_ok.mp h
  rcases Compile.query_shown q hq hpieces with hwrites | ⟨hnone, htext⟩
  · exact hwrites.join_eq
  · rw [hnone, htext]
    rfl

/-- The largest orders, if they are large enough or a special customer has made them. -/
def Query.largestOrders : Query where
  table := some ⟨"orders", none⟩
  join := some ⟨.inner, ⟨"users", none⟩, "user_id", "id"⟩
  action := some (.select [.function "coalesce" [.named "users.name", .raw "'?'"]])
  filter := some (.group .or [
    .group .and [.spec "sum__gt" (.literal (.int 10)),
      .compare (.named "id") .isIn (.list [.int 1, .int 2])],
    .compare (.named "users.id") .isIn (.subquery
      { table := some ⟨"vips", none⟩
        action := some (.select [.named "id"]) })])
  orderBy := [.desc (.named "sum")]
  limit := some 10

theorem Query.toSql_eq_queryText_largestOrders :
    ∃ args, largestOrders.toSql ShippedDialect.ansi.dialect =
      .ok ("SELECT coalesce(\"b\".\"name\", '?') FROM \"orders\" AS \"a\" " ++
        "INNER JOIN \"users\" AS \"b\" ON \"a\".\"user_id\" = \"b\".\"id\" " ++
        "WHERE ((\"a\".\"sum\" > %s) AND (\"a\".\"id\" IN (%s,%s))) " ++
        "OR (\"b\".\"id\" IN (SELECT \"c\".\"id\" FROM \"vips\" AS \"c\")) " ++
        "ORDER BY \"a\".\"sum\" DESC LIMIT %s", args) := by
  have hok : (largestOrders.toSql ShippedDialect.ansi.dialect).isOk = true := by decide +kernel
  cases h : largestOrders.toSql ShippedDialect.ansi.dialect with
  | error e => simp [h, Except.isOk, Except.toBool] at hok
  | ok result =>
      obtain ⟨text, args⟩ := result
      have hspec : Specifier.parse "sum__gt" = .ok (.named "sum", .gt) := rfl
      have hraw : Bare "'?'" := by decide
      have hfunction : Callable "coalesce" := by
        unfold Callable
        decide
      have hq : largestOrders.Verbatim Bare Callable := by
        simp [largestOrders, Query.Verbatim, Condition.OptionVerbatim, Condition.Verbatim,
          Condition.AllVerbatim, Operand.Verbatim, Action.Verbatim, Field.AllVerbatim,
          Field.Verbatim, OrderBy.desc, hspec, hraw, hfunction]
      have htext := Query.toSql_eq_queryText h hq
      refine ⟨args, congrArg (fun written => Except.ok (written, args)) (htext.trans ?_)⟩
      decide +kernel

end BoundSql

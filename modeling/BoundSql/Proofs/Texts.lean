import BoundSql.Proofs.Lowering.Mentions
import BoundSql.Proofs.Numbering
import Mathlib.Data.List.Basic

/-! # Where the texts of a statement come from

A statement is made of words, of the names, raw texts and specifiers of the query, and of parts of
these. What holds of all of them, and of a text only if it holds of its parts, holds everywhere in
the pieces to which the query is lowered. -/

namespace BoundSql

/-! ## The texts of a query -/

mutual

/-- The names and the raw texts of a field. -/
def Field.texts : Field → List String
  | named name => [name]
  | function name args => name :: Field.allTexts args
  | raw text => [text]
termination_by structural f => f

def Field.allTexts : List Field → List String
  | [] => []
  | f :: rest => f.texts ++ Field.allTexts rest
termination_by structural fs => fs

end

/-- The names of a table. -/
def Table.texts (t : Table) : List String :=
  t.name :: t.schema.toList

/-- The names of a joined table and of the columns at which it is joined. -/
def Join.texts (join : Join) : List String :=
  join.table.texts ++ [join.mainField, join.joinField]

/-- The names and the raw texts of an action. -/
def Action.texts : Action → List String
  | select fields => Field.allTexts fields
  | update assignments => assignments.columns
  | insert rows _ => rows.flatMap Row.columns
  | delete => []

/-- The columns that an upsert assigns. -/
def Upsert.texts : Upsert → List String
  | proposed => []
  | assign assignments => assignments.columns

mutual

/-- The names, the raw texts and the specifiers of a condition, those of nested statements left
out. -/
def Condition.texts : Condition → List String
  | compare f _ _ => f.texts
  | spec text _ => [text]
  | group _ conditions => Condition.allTexts conditions
termination_by structural c => c

def Condition.allTexts : List Condition → List String
  | [] => []
  | c :: rest => c.texts ++ Condition.allTexts rest
termination_by structural conditions => conditions

end

/-- The names, the raw texts and the specifiers of a query itself. -/
def Query.ownTexts (q : Query) : List String :=
  q.table.elim [] Table.texts ++ q.join.elim [] Join.texts ++ q.action.elim [] Action.texts ++
    q.upsert.elim [] Upsert.texts ++ q.filter.elim [] Condition.texts ++
    q.having.elim [] Condition.texts ++ Field.allTexts q.groupBy ++
    Field.allTexts (q.orderBy.map OrderBy.field)

/-- The names, the raw texts and the specifiers of a query and of the queries nested in it. -/
def Query.texts (q : Query) : List String :=
  q.statements.flatMap ownTexts

/-! ## Texts that come out of others -/

/-- The text stands in one of the texts. -/
def OccursIn (texts : List String) (part : String) : Prop :=
  ∃ text ∈ texts, part.toList <:+: text.toList

theorem OccursIn.of_mem {texts : List String} {text : String} (h : text ∈ texts) :
    OccursIn texts text :=
  ⟨text, h, List.infix_rfl⟩

theorem OccursIn.mono {texts more : List String} {part : String} (h : OccursIn texts part)
    (hmore : ∀ text ∈ texts, text ∈ more) : OccursIn more part := by
  obtain ⟨text, htext, hpart⟩ := h
  exact ⟨text, hmore text htext, hpart⟩

/-- The property is one that the parts of a text have if the text has it. -/
def PassesToParts (p : String → Prop) : Prop :=
  ∀ {part text : String}, part.toList <:+: text.toList → p text → p part

theorem OccursIn.of_forall {p : String → Prop} (hp : PassesToParts p) {texts : List String}
    {part : String} (h : OccursIn texts part) (htexts : ∀ text ∈ texts, p text) : p part := by
  obtain ⟨text, htext, hpart⟩ := h
  exact hp hpart (htexts text htext)

namespace Specifier

theorem isInfix_of_mem_splitFrom {p part cs : List Char} (h : p ∈ splitFrom part cs) :
    p <:+: part.reverse ++ cs := by
  induction part, cs using splitFrom.induct with
  | case1 part rest ih =>
      rw [splitFrom] at h
      rcases List.mem_cons.mp h with rfl | h
      · exact (List.prefix_append _ _).isInfix
      · exact (ih h).trans ⟨part.reverse ++ ['_', '_'], [], by simp⟩
  | case2 part c rest hne ih =>
      rw [splitFrom] at h
      · simpa using ih h
      · exact hne
  | case3 part =>
      rw [splitFrom] at h
      obtain rfl := List.mem_singleton.mp h
      simp

/-- What a specifier names stands in it. -/
theorem occursIn_of_parse {spec : String} {f : Field} {op : Operator}
    (h : parse spec = .ok (f, op)) : ∀ text ∈ f.texts, OccursIn [spec] text := by
  have hparts : ∀ p ∈ parts spec.toList, OccursIn [spec] (String.ofList p) := fun p hp =>
    ⟨spec, List.mem_singleton_self spec, by simpa using isInfix_of_mem_splitFrom hp⟩
  have hfound : parse? spec.toList = some (f, op) := by
    rw [parse] at h
    split at h <;> simp_all
  rw [parse?] at hfound
  split at hfound
  · next column key hsplit =>
    split at hfound
    · cases hfound
    · cases hfound
      simpa [Field.texts] using hparts column (by simp [hsplit])
  · next column function key hsplit =>
    split at hfound
    · cases hfound
    · cases hfound
      simpa [Field.texts, Field.allTexts] using
        ⟨hparts function (by simp [hsplit]), hparts column (by simp [hsplit])⟩
  · cases hfound

end Specifier

mutual

theorem Field.columns_subset_texts : (f : Field) → f.columns ⊆ f.texts
  | .named name => by simp [columns, texts]
  | .function name args => by
    rw [columns, texts]
    exact List.Subset.trans (Field.allColumns_subset_allTexts args) (List.subset_cons_self _ _)
  | .raw text => by simp [columns]
termination_by structural f => f

theorem Field.allColumns_subset_allTexts : (fs : List Field) →
    allColumns fs ⊆ allTexts fs
  | [] => by simp [allColumns]
  | f :: rest => by
    rw [allColumns, allTexts]
    exact List.append_subset.mpr
      ⟨List.Subset.trans (Field.columns_subset_texts f) (List.subset_append_left _ _),
        List.Subset.trans (Field.allColumns_subset_allTexts rest) (List.subset_append_right _ _)⟩
termination_by structural fs => fs

end

mutual

/-- The columns that a condition names stand in its texts. -/
theorem Condition.occursIn_of_mem_columns : (c : Condition) →
    ∀ name ∈ c.columns, OccursIn c.texts name
  | .compare f op x, name, h => by
    rw [columns] at h
    exact .of_mem (f.columns_subset_texts h)
  | .spec text x, name, h => by
    rw [columns] at h
    split at h
    · next f op hparse => exact Specifier.occursIn_of_parse hparse name (f.columns_subset_texts h)
    · cases h
  | .group op conditions, name, h => by
    rw [columns] at h
    exact Condition.occursIn_of_mem_allColumns conditions name h
termination_by structural c => c

theorem Condition.occursIn_of_mem_allColumns : (conditions : List Condition) →
    ∀ name ∈ allColumns conditions, OccursIn (allTexts conditions) name
  | [], name, h => by cases h
  | c :: rest, name, h => by
    rw [allColumns] at h
    rw [allTexts]
    rcases List.mem_append.mp h with h | h
    · exact (Condition.occursIn_of_mem_columns c name h).mono fun _ => List.mem_append_left _
    · exact (Condition.occursIn_of_mem_allColumns rest name h).mono fun _ =>
        List.mem_append_right _
termination_by structural conditions => conditions

end

/-! ## Unquoted texts -/

variable {p : String → Prop}

mutual

theorem Field.verbatim_of_texts : (f : Field) → (∀ text ∈ f.texts, p text) →
    f.Verbatim p p
  | .named _, _ => trivial
  | .function name args, h => by
    rw [texts, List.forall_mem_cons] at h
    exact ⟨h.1, Field.allVerbatim_of_texts args h.2⟩
  | .raw text, h => h text (List.mem_singleton_self text)
termination_by structural f => f

theorem Field.allVerbatim_of_texts : (fs : List Field) →
    (∀ text ∈ allTexts fs, p text) → AllVerbatim p p fs
  | [], _ => trivial
  | f :: rest, h => by
    rw [allTexts, List.forall_mem_append] at h
    exact ⟨Field.verbatim_of_texts f h.1, Field.allVerbatim_of_texts rest h.2⟩
termination_by structural fs => fs

end

mutual

theorem Operand.verbatim_of_texts (hp : PassesToParts p) : (x : Operand) →
    (∀ q ∈ x.statements, ∀ text ∈ q.ownTexts, p text) → x.Verbatim p p
  | .literal _, _ => trivial
  | .list _, _ => trivial
  | .null, _ => trivial
  | .subquery q, h => Query.verbatim_of_texts hp q h
termination_by structural x => x

theorem Condition.verbatim_of_texts (hp : PassesToParts p) : (c : Condition) →
    (∀ text ∈ c.texts, p text) → (∀ q ∈ c.statements, ∀ text ∈ q.ownTexts, p text) →
    c.Verbatim p p
  | .compare f _ x, htexts, h => ⟨f.verbatim_of_texts htexts, Operand.verbatim_of_texts hp x h⟩
  | .spec _ x, htexts, h =>
    ⟨fun f _ hparse => f.verbatim_of_texts fun text htext =>
      (Specifier.occursIn_of_parse hparse text htext).of_forall hp htexts,
      Operand.verbatim_of_texts hp x h⟩
  | .group _ conditions, htexts, h => Condition.allVerbatim_of_texts hp conditions htexts h
termination_by structural c => c

theorem Condition.allVerbatim_of_texts (hp : PassesToParts p) : (conditions : List Condition) →
    (∀ text ∈ Condition.allTexts conditions, p text) →
    (∀ q ∈ Condition.allStatements conditions, ∀ text ∈ q.ownTexts, p text) →
    Condition.AllVerbatim p p conditions
  | [], _, _ => trivial
  | c :: rest, htexts, h => by
    rw [Condition.allTexts, List.forall_mem_append] at htexts
    rw [Condition.allStatements, List.forall_mem_append] at h
    exact ⟨Condition.verbatim_of_texts hp c htexts.1 h.1,
      Condition.allVerbatim_of_texts hp rest htexts.2 h.2⟩
termination_by structural conditions => conditions

theorem Condition.optionVerbatim_of_texts (hp : PassesToParts p) : (c : Option Condition) →
    (∀ text ∈ c.elim [] Condition.texts, p text) →
    (∀ q ∈ Condition.optionStatements c, ∀ text ∈ q.ownTexts, p text) →
    Condition.OptionVerbatim p p c
  | none, _, _ => trivial
  | some c, htexts, h => Condition.verbatim_of_texts hp c htexts h
termination_by structural c => c

theorem Query.verbatim_of_texts (hp : PassesToParts p) : (q : Query) →
    (∀ s ∈ q.statements, ∀ text ∈ s.ownTexts, p text) → q.Verbatim p p
  | ⟨action, table, join, filter, having, orderBy, groupBy, limit, offset, upsert⟩, h => by
    rw [Query.statements, List.forall_mem_cons, List.forall_mem_append] at h
    obtain ⟨hown, hfilter, hhaving⟩ := h
    simp only [Query.ownTexts, List.forall_mem_append] at hown
    obtain ⟨⟨⟨⟨⟨⟨⟨-, -⟩, haction⟩, -⟩, hwhere⟩, hhad⟩, hgroup⟩, horder⟩ := hown
    refine ⟨?_, Condition.optionVerbatim_of_texts hp filter hwhere hfilter,
      Field.allVerbatim_of_texts groupBy hgroup,
      Condition.optionVerbatim_of_texts hp having hhad hhaving,
      Field.allVerbatim_of_texts _ horder⟩
    rintro a rfl
    cases a with
    | select fields => exact Field.allVerbatim_of_texts fields haction
    | _ => trivial
termination_by structural q => q

end

/-! ## The texts of pieces -/

namespace Piece

/-- The texts of a piece itself, those of a nested statement left out. -/
def texts : Piece → List String
  | word text => [text]
  | call function => [function]
  | slot _ => []
  | table t => t.texts
  | source t _ => t.texts
  | target _ => []
  | column _ own => [own]
  | name own => [own]
  | proposed own => [own]
  | nested _ => []

/-- The texts of a piece stand in the texts. -/
def OccursIn (texts : List String) (piece : Piece) : Prop :=
  ∀ part ∈ piece.texts, BoundSql.OccursIn texts part

/-- All pieces have a property, also those of nested statements. -/
def Everywhere (p : Piece → Prop) (pieces : List Piece) : Prop :=
  ∀ body ∈ pieces :: allStatements pieces, ∀ piece ∈ body, p piece

variable {p : Piece → Prop} {left right body : List Piece}

theorem everywhere_nil : Everywhere p [] := by
  simp [Everywhere, allStatements]

theorem everywhere_singleton {piece : Piece} (hpiece : ∀ body, piece ≠ .nested body) :
    Everywhere p [piece] ↔ p piece := by
  cases piece with
  | nested body => exact absurd rfl (hpiece body)
  | _ => simp [Everywhere, allStatements, statements]

theorem everywhere_append :
    Everywhere p (left ++ right) ↔ Everywhere p left ∧ Everywhere p right := by
  simp only [Everywhere, allStatements_append, List.forall_mem_cons, List.forall_mem_append]
  exact and_and_and_comm

theorem everywhere_nested :
    Everywhere p [.nested body] ↔ p (.nested body) ∧ Everywhere p body := by
  simp [Everywhere, allStatements, statements]

end Piece

/-! ## Mentioned texts -/

namespace Scope

variable {s : Scope} {name : String} {texts : List String}

theorem isInfix_of_columnOf? {table rest : String} (h : columnOf? table name = some rest) :
    rest.toList <:+: name.toList := by
  rw [columnOf?] at h
  split at h
  · next tail hleading =>
    cases h
    rw [List.isPrefixOf?_eq_some_iff_append_eq] at hleading
    exact ⟨table.toList ++ ['.'], [], by simp [← hleading]⟩
  · cases h

theorem tableColumn_occursIn (h : BoundSql.OccursIn texts name) (t : Table) (a : Alias) :
    (tableColumn t a name).OccursIn texts := by
  intro part hpart
  obtain rfl := List.mem_singleton.mp hpart
  obtain ⟨text, htext, hname⟩ := h
  cases hcolumn : columnOf? t.name name with
  | none => exact ⟨text, htext, hname⟩
  | some rest => exact ⟨text, htext, (isInfix_of_columnOf? hcolumn).trans hname⟩

theorem resolve_occursIn (h : BoundSql.OccursIn texts name) :
    (s.resolve name).OccursIn texts := by
  unfold resolve
  split
  · split
    · next column hcolumn =>
      intro part hpart
      obtain rfl := List.mem_singleton.mp hpart
      obtain ⟨text, htext, hname⟩ := h
      exact ⟨text, htext, (isInfix_of_columnOf? hcolumn).trans hname⟩
    · exact tableColumn_occursIn h s.table s.mainAlias
  · exact tableColumn_occursIn h s.table s.mainAlias

theorem of_enter? {table : Option Table} {join : Option Join} {supply after : AliasSupply}
    (h : enter? table join supply = some (s, after)) :
    table = some s.table ∧ join = s.join.map Prod.fst := by
  cases table with
  | none => cases h
  | some table =>
      cases join <;> cases h <;> exact ⟨rfl, rfl⟩

theorem joinMentions_occurIn (h : (s.join.map Prod.fst).elim [] Join.texts ⊆ texts) :
    ∀ piece ∈ s.joinMentions, piece.OccursIn texts := by
  unfold joinMentions
  split
  · simp
  · next join a hjoin =>
    simp only [hjoin, Option.map_some, Option.elim_some, Join.texts, List.append_subset,
      List.cons_subset] at h
    obtain ⟨htable, hmain, hown, -⟩ := h
    simp only [List.forall_mem_cons]
    exact ⟨fun part hpart => .of_mem (htable hpart),
      tableColumn_occursIn (.of_mem hmain) s.table s.mainAlias,
      tableColumn_occursIn (.of_mem hown) join.table a, by simp⟩

end Scope

namespace Statement

variable {s : Scope} {texts : List String}

theorem upsertMentions_occurIn {upsert : Option Upsert} {columns : List String}
    (hcolumns : columns ⊆ texts) (h : upsert.elim [] Upsert.texts ⊆ texts) :
    ∀ piece ∈ upsertMentions upsert columns, piece.OccursIn texts := by
  have hown {column : String} (hcolumn : column ∈ texts) :
      ∀ part ∈ [column], OccursIn texts part := by
    simpa using .of_mem hcolumn
  rcases upsert with _ | _ | assignments
  · simp [upsertMentions]
  · intro piece hpiece
    obtain ⟨column, hcolumn, hpiece⟩ := List.mem_flatMap.mp hpiece
    simp only [List.mem_cons, List.not_mem_nil, or_false] at hpiece
    rcases hpiece with rfl | rfl <;> exact hown (hcolumns hcolumn)
  · intro piece hpiece
    obtain ⟨column, hcolumn, rfl⟩ := List.mem_map.mp hpiece
    exact hown (h hcolumn)

theorem actionMentions_occurIn {upsert : Option Upsert} {action : Action}
    (htable : s.table.texts ⊆ texts) (hjoin : (s.join.map Prod.fst).elim [] Join.texts ⊆ texts)
    (haction : action.texts ⊆ texts) (hupsert : upsert.elim [] Upsert.texts ⊆ texts) :
    ∀ piece ∈ actionMentions s upsert action, piece.OccursIn texts := by
  have hsource : (Piece.source s.table s.mainAlias).OccursIn texts := fun part hpart =>
    .of_mem (htable hpart)
  have hjoined := Scope.joinMentions_occurIn hjoin
  cases action with
  | select fields =>
      rw [actionMentions, List.forall_mem_append, List.forall_mem_cons]
      refine ⟨fun piece hpiece => ?_, hsource, hjoined⟩
      obtain ⟨name, hname, rfl⟩ := List.mem_map.mp hpiece
      exact Scope.resolve_occursIn
        (.of_mem (haction (Field.allColumns_subset_allTexts fields hname)))
  | update assignments =>
      rw [actionMentions, List.forall_mem_cons, List.forall_mem_append]
      refine ⟨hsource, hjoined, fun piece hpiece => ?_⟩
      obtain ⟨name, hname, rfl⟩ := List.mem_map.mp hpiece
      exact Scope.tableColumn_occursIn (.of_mem (haction hname)) s.table s.mainAlias
  | insert rows mode =>
      cases rows with
      | nil => simp [actionMentions]
      | cons first rest =>
          have hfirst : first.columns ⊆ texts :=
            List.Subset.trans (List.subset_append_left _ _) haction
          rw [actionMentions, List.forall_mem_cons, List.forall_mem_append]
          refine ⟨hsource, fun piece hpiece => ?_, upsertMentions_occurIn hfirst hupsert⟩
          obtain ⟨name, hname, rfl⟩ := List.mem_map.mp hpiece
          intro part hpart
          obtain rfl := List.mem_singleton.mp hpart
          exact .of_mem (hfirst hname)
  | delete =>
      rw [actionMentions, List.forall_mem_append, List.forall_mem_cons]
      refine ⟨?_, hsource, hjoined⟩
      split <;> simp [Piece.OccursIn, Piece.texts]

end Statement

namespace Query

theorem occursIn_of_mem_clauseColumns {q : Query} {name : String} (h : name ∈ q.clauseColumns) :
    OccursIn q.ownTexts name := by
  have hoption {c : Option Condition} (h : name ∈ Condition.optionColumns c) :
      OccursIn (c.elim [] Condition.texts) name := by
    cases c with
    | none => cases h
    | some c => exact c.occursIn_of_mem_columns name h
  simp only [clauseColumns, List.mem_append] at h
  rcases h with ((hfilter | hgroup) | hhaving) | horder
  · exact (hoption hfilter).mono fun text htext => by simp [ownTexts, htext]
  · exact .of_mem (by simp [ownTexts, Field.allColumns_subset_allTexts _ hgroup])
  · exact (hoption hhaving).mono fun text htext => by simp [ownTexts, htext]
  · exact .of_mem (by simp [ownTexts, Field.allColumns_subset_allTexts _ horder])

end Query

namespace Compile

variable {v : Vocabulary} {q : Query} {supply after : AliasSupply} {pieces : List Piece}

/-- The names in a statement stand in texts of its query. -/
theorem mentions_occurIn (h : (query v q).runFrom supply = (.ok pieces, after)) :
    ∀ piece ∈ Piece.mentions pieces, piece.OccursIn q.ownTexts := by
  obtain ⟨s, entered, action, hs, haction, hmentions⟩ := mentions_query h
  obtain ⟨htable, hjoin⟩ := Scope.of_enter? hs
  rw [hmentions, List.forall_mem_append]
  constructor
  · refine Statement.actionMentions_occurIn ?_ ?_ ?_ ?_
    · exact fun text htext => by simp [Query.ownTexts, htable, htext]
    · rw [← hjoin]
      exact fun text htext => by simp [Query.ownTexts, htext]
    · exact fun text htext => by simp [Query.ownTexts, haction, htext]
    · exact fun text htext => by simp [Query.ownTexts, htext]
  · intro piece hpiece
    obtain ⟨name, hname, rfl⟩ := List.mem_map.mp hpiece
    exact Scope.resolve_occursIn (Query.occursIn_of_mem_clauseColumns hname)

end Compile

/-! ## All texts -/

namespace Piece

/-- The piece names something, or its texts have the property. -/
def NamedOr (p : String → Prop) (piece : Piece) : Prop :=
  piece.isMention = false → ∀ text ∈ piece.texts, p text

theorem namedOr_of_formed {allowed : Piece → Prop} {p : String → Prop} {pieces : List Piece}
    (hopen : p "(") (hclose : p ")") (h : Formed allowed p p pieces) :
    Everywhere (NamedOr p) pieces := by
  have hword {text : String} (htext : p text) : Everywhere (NamedOr p) [.word text] := by
    simpa [everywhere_singleton, NamedOr, texts] using fun _ => htext
  have hbracketed {body : List Piece} (hbody : Everywhere (NamedOr p) body) :
      Everywhere (NamedOr p) (bracketed body) :=
    everywhere_append.mpr ⟨hword hopen, everywhere_append.mpr ⟨hbody, hword hclose⟩⟩
  induction h with
  | nil => exact everywhere_nil
  | word h => exact hword h
  | @plain piece h hallowed =>
      cases piece with
      | word _ | call _ | nested _ => exact h.elim
      | _ => simp [everywhere_singleton, NamedOr, isMention, texts]
  | @call name args h hargs ih =>
      have hname : Everywhere (NamedOr p) [.call name] := by
        simpa [everywhere_singleton, NamedOr, texts] using fun _ => h
      change Everywhere (NamedOr p) ([.call name] ++ bracketed args)
      exact everywhere_append.mpr ⟨hname, hbracketed ih⟩
  | bracketed h ih => exact hbracketed ih
  | nested hallowed h ih => exact everywhere_nested.mpr ⟨by simp [NamedOr, texts], ih⟩
  | append hleft hright ihLeft ihRight => exact everywhere_append.mpr ⟨ihLeft, ihRight⟩

end Piece

/-- What holds of all texts of a query and of the words of the vocabulary holds of all texts in the
pieces to which the query is lowered. -/
theorem Compile.everywhere_texts {v : Vocabulary} {p : String → Prop} (hp : PassesToParts p)
    (hv : v.Spells p p) (hopen : p "(") (hclose : p ")") {q : Query}
    {supply after : AliasSupply} {pieces : List Piece}
    (h : (Compile.query v q).runFrom supply = (.ok pieces, after))
    (htexts : ∀ text ∈ q.texts, p text) :
    Piece.Everywhere (fun piece => ∀ text ∈ piece.texts, p text) pieces := by
  have hown : ∀ s ∈ q.statements, ∀ text ∈ s.ownTexts, p text := fun s hs text htext =>
    htexts text (List.mem_flatMap.mpr ⟨s, hs, htext⟩)
  have hformed := query_formed hv q (Query.verbatim_of_texts hp q hown) h
  obtain ⟨runs, hruns⟩ := numbers_query q h
  intro body hbody piece hpiece
  cases hmention : piece.isMention with
  | false => exact Piece.namedOr_of_formed hopen hclose hformed body hbody piece hpiece hmention
  | true =>
      rw [← hruns.bodies_eq] at hbody
      obtain ⟨l, hl, rfl⟩ := List.mem_map.mp hbody
      have hstatement : l.statement ∈ q.statements :=
        hruns.statements_eq ▸ List.mem_map_of_mem hl
      obtain ⟨entered, ended, -, hrun⟩ := hruns.all_run l hl
      intro text htext
      have hoccurs := mentions_occurIn hrun piece (Piece.mem_mentions.mpr ⟨hpiece, hmention⟩)
      exact (hoccurs text htext).of_forall hp (hown l.statement hstatement)

end BoundSql

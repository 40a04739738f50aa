import BoundSql.Proofs.Listing
import BoundSql.Proofs.Rebinding
import BoundSql.Proofs.Shorthand

/-! # Statements that differ in one place

Queries that are the same but for what one comparison compares with, or for the value of one cell,
compile to statements that are the same but for what stands in that place; or all of them fail with
the same error. -/

namespace BoundSql

/-! ## Lists that differ in one place -/

/-- The lists are the same around a content, of which each has its own. -/
def Framed {ι α : Type} (content written : ι → List α) : Prop :=
  ∃ front back, ∀ i, written i = front ++ content i ++ back

namespace Framed

variable {ι κ α : Type} {content middle written : ι → List α}

theorem refl (content : ι → List α) : Framed content content :=
  ⟨[], [], fun i => by simp⟩

theorem append (h : Framed content written) (before behind : List α) :
    Framed content fun i => before ++ written i ++ behind := by
  obtain ⟨front, back, h⟩ := h
  exact ⟨before ++ front, back ++ behind, fun i => by simp [h]⟩

theorem cons (h : Framed content written) (a : α) : Framed content fun i => a :: written i := by
  simpa using h.append [a] []

theorem trans (h : Framed content middle) (h' : Framed middle written) :
    Framed content written := by
  obtain ⟨front, back, h⟩ := h
  obtain ⟨before, behind, h'⟩ := h'
  exact ⟨before ++ front, back ++ behind, fun i => by simp [h, h']⟩

theorem comp (h : Framed content written) (f : κ → ι) :
    Framed (fun k => content (f k)) fun k => written (f k) := by
  obtain ⟨front, back, h⟩ := h
  exact ⟨front, back, fun k => h (f k)⟩

end Framed

namespace Piece

/-- A part among others, with a word between every two of them. -/
theorem framed_separated (word : String) (above below : List (List Piece)) :
    Framed id fun part => separated word (above ++ part :: below) := by
  induction above with
  | nil =>
      cases below with
      | nil => exact ⟨[], [], fun part => by simp⟩
      | cons next below =>
          exact ⟨[], .word word :: separated word (next :: below), fun part => by simp⟩
  | cons first above ih =>
      have hrest : ∀ part, separated word (first :: above ++ part :: below) =
          first ++ [.word word] ++ separated word (above ++ part :: below) ++ [] := by
        intro part
        cases above <;> simp
      simp only [hrest]
      exact ih.append (first ++ [.word word]) []

theorem framed_bracketed : Framed id bracketed :=
  ⟨[.word "("], [.word ")"], fun body => by simp [bracketed]⟩

variable {ι : Type} (d : Dialect)

/-- Pieces that differ in one place are written as items that differ in one place. -/
theorem framed_allItems {content written : ι → List Piece} (h : Framed content written) :
    Framed (fun i => allItems d (content i)) fun i => allItems d (written i) := by
  obtain ⟨front, back, h⟩ := h
  exact ⟨allItems d front, allItems d back, fun i => by simp [h]⟩

theorem framed_nested : Framed (allItems d) fun body => allItems d [.nested body] :=
  ⟨[.token (.text "(")], [.token (.text ")")], fun body => by simp [allItems, items]⟩

end Piece

/-! ## Steps that differ in one place -/

/-- All results are the same error, or all are pieces that a dialect writes the same around a
content. -/
def FramedResults {ι : Type} (d : Dialect) (content : ι → List Item)
    (result : ι → Except QueryError (List Piece)) : Prop :=
  (∃ e, ∀ i, result i = .error e) ∨
    ∃ pieces : ι → List Piece, (∀ i, result i = .ok (pieces i)) ∧
      Framed content fun i => Piece.allItems d (pieces i)

namespace Compile

open Piece (allItems framed_allItems framed_bracketed framed_nested framed_separated)

variable {ι α : Type} {d : Dialect} {content : ι → List Item}

/-- From wherever they start, the steps draw the same aliases, and their results differ in the
content alone. -/
def Frames (d : Dialect) (content : ι → List Item) (step : ι → Compile (List Piece)) : Prop :=
  ∀ supply, ∃ (after : AliasSupply) (result : ι → Except QueryError (List Piece)),
    (∀ i, (step i).runFrom supply = (result i, after)) ∧ FramedResults d content result

namespace Frames

theorem lift {result : ι → Except QueryError (List Piece)} (h : FramedResults d content result) :
    Frames d content fun i => Compile.lift (result i) :=
  fun supply => ⟨supply, result, fun _ => rfl, h⟩

theorem pure {pieces : ι → List Piece} (h : Framed content fun i => allItems d (pieces i)) :
    Frames d content fun i => Pure.pure (pieces i) :=
  fun supply => ⟨supply, fun i => .ok (pieces i), fun _ => rfl, .inr ⟨pieces, fun _ => rfl, h⟩⟩

/-- A first step that all have in common changes nothing. -/
theorem after (first : Compile α) {step : ι → α → Compile (List Piece)}
    (h : ∀ a, Frames d content fun i => step i a) : Frames d content fun i => first >>= step i := by
  intro supply
  rcases hfirst : first.runFrom supply with ⟨e | a, between⟩
  · refine ⟨between, fun _ => .error e, fun i => ?_, .inl ⟨e, fun _ => rfl⟩⟩
    rw [runFrom_bind, hfirst]
  · obtain ⟨ended, result, hrun, hresult⟩ := h a between
    refine ⟨ended, result, fun i => ?_, hresult⟩
    rw [runFrom_bind, hfirst]
    exact hrun i

/-- Steps that go on from such pieces, and put all that they are given in one place, are such steps
again. -/
theorem bind {step : ι → Compile (List Piece)} {next : List Piece → Compile (List Piece)}
    (h : Frames d content step) (hnext : Frames d (allItems d) next) :
    Frames d content fun i => step i >>= next := by
  intro supply
  obtain ⟨between, result, hrun, ⟨e, he⟩ | ⟨pieces, hpieces, hframed⟩⟩ := h supply
  · refine ⟨between, fun _ => .error e, fun i => ?_, .inl ⟨e, fun _ => rfl⟩⟩
    rw [runFrom_bind, hrun, he]
  · obtain ⟨ended, results, hruns, hresults⟩ := hnext between
    refine ⟨ended, fun i => results (pieces i), fun i => ?_, ?_⟩
    · rw [runFrom_bind, hrun, hpieces]
      exact hruns (pieces i)
    · rcases hresults with ⟨e, he⟩ | ⟨written, hwritten, hframes⟩
      · exact .inl ⟨e, fun i => he (pieces i)⟩
      · exact .inr ⟨fun i => written (pieces i), fun i => hwritten (pieces i),
          hframed.trans (hframes.comp pieces)⟩

/-- What is put around pieces. -/
theorem wrap {wrapped : List Piece → List Piece} (h : Framed id wrapped) :
    Frames d (allItems d) fun pieces => Pure.pure (wrapped pieces) :=
  pure (framed_allItems d h)

end Frames

/-! ## Conditions and the queries around them -/

theorem children_append {v : Vocabulary} {s : Scope} (before behind : List Condition) :
    children v s (before ++ behind) = do
      let above ← children v s before
      let below ← children v s behind
      return above ++ below := by
  induction before with
  | nil => simp [children]
  | cons c before ih => simp [children, ih]

theorem frames_comparison {s : Scope} (f : Field) (op : Operator) {x : ι → Compile (List Piece)}
    (h : Frames d content x) :
    Frames d content fun i => comparison d.toVocabulary s f op (x i) := by
  refine .after _ fun word => .after _ fun left => h.bind (.wrap ?_)
  exact ⟨.word "(" :: (left ++ [.word word]), [.word ")"], fun right => by
    simp [Piece.bracketed]⟩

theorem frames_subquery {q : ι → Query} (h : Frames d content fun i => query d.toVocabulary (q i)) :
    Frames d content fun i => operand d.toVocabulary (.subquery (q i)) := by
  simp only [operand]
  exact h.bind (.pure (framed_nested d))

/-- A condition among others of a group, with brackets around it or without. -/
theorem frames_group {s : Scope} {c : ι → Condition} (op : LogicalOp)
    (before behind : List Condition) {isGroup : Bool} (hgroup : ∀ i, (c i).isGroup = isGroup)
    (h : Frames d content fun i => condition d.toVocabulary s (c i)) :
    Frames d content fun i => condition d.toVocabulary s (.group op (before ++ c i :: behind)) := by
  have hcondition : ∀ i, condition d.toVocabulary s (.group op (before ++ c i :: behind)) = do
      let above ← children d.toVocabulary s before
      let part ← condition d.toVocabulary s (c i)
      let below ← children d.toVocabulary s behind
      return Piece.separated (d.logical op)
        (above ++ (if isGroup then Piece.bracketed part else part) :: below) := by
    intro i
    simp [condition, children_append, children, hgroup]
  simp only [hcondition]
  refine .after _ fun above => h.bind (.after _ fun below => .wrap ?_)
  have hplace := framed_separated (d.logical op) above below
  cases isGroup with
  | true => exact framed_bracketed.trans (hplace.comp Piece.bracketed)
  | false => exact hplace

theorem frames_conditionClause {s : Scope} {c : ι → Condition} (word : String)
    (h : Frames d content fun i => condition d.toVocabulary s (c i)) :
    Frames d content fun i => conditionClause d.toVocabulary s word (some (c i)) := by
  simp only [conditionClause]
  exact h.bind (.wrap ((Framed.refl id).cons (Piece.word word)))

theorem frames_filter {c : ι → Condition} (q : Query)
    (h : ∀ s, Frames d content fun i => condition d.toVocabulary s (c i)) :
    Frames d content fun i => query d.toVocabulary { q with filter := some (c i) } := by
  simp only [query]
  refine .after _ fun s => .after _ fun verb => (frames_conditionClause "WHERE" (h s)).bind ?_
  refine .after _ fun groupPart => .after _ fun havingPart => .after _ fun orderPart => .wrap ?_
  exact ⟨verb, groupPart ++ havingPart ++ orderPart ++ Statement.offsetClause q.offset ++
    Statement.limitClause q.limit, fun pieces => by simp⟩

theorem frames_having {c : ι → Condition} (q : Query)
    (h : ∀ s, Frames d content fun i => condition d.toVocabulary s (c i)) :
    Frames d content fun i => query d.toVocabulary { q with having := some (c i) } := by
  simp only [query]
  refine .after _ fun s => .after _ fun verb => .after _ fun filterPart =>
    .after _ fun groupPart => (frames_conditionClause "HAVING" (h s)).bind ?_
  refine .after _ fun orderPart => .wrap ?_
  exact ⟨verb ++ filterPart ++ groupPart, orderPart ++ Statement.offsetClause q.offset ++
    Statement.limitClause q.limit, fun pieces => by simp⟩

theorem isGroup_fill {c : Condition} (hc : c.isGroup = false) (hole : ConditionHole) :
    (hole.fill c).isGroup = (hole.fill (.spec "" .null)).isGroup := by
  cases hole with
  | here => exact hc
  | _ => simp [ConditionHole.fill, Condition.isGroup]

section

variable {c : ι → Condition}

mutual

/-- Conditions that differ in one place make any condition around them do so, by the depth of the
place. -/
theorem frames_fill (hc : ∀ i, (c i).isGroup = false)
    (h : ∀ s, Frames d content fun i => condition d.toVocabulary s (c i)) :
    (hole : ConditionHole) →
      ∀ s, Frames d content fun i => condition d.toVocabulary s (hole.fill (c i))
  | .here => h
  | .inGroup op before hole behind => by
      intro s
      simp only [ConditionHole.fill]
      exact frames_group op before behind (fun i => isGroup_fill (hc i) hole)
        (frames_fill hc h hole s)
  | .inCompare f op hole => by
      intro s
      simp only [ConditionHole.fill, condition]
      exact frames_comparison f op (frames_subquery (frames_query hc h hole))
  | .inSpec spec hole => by
      intro s
      simp only [ConditionHole.fill, condition]
      exact .after _ fun read =>
        frames_comparison read.1 read.2 (frames_subquery (frames_query hc h hole))
termination_by structural hole => hole

theorem frames_query (hc : ∀ i, (c i).isGroup = false)
    (h : ∀ s, Frames d content fun i => condition d.toVocabulary s (c i)) :
    (hole : QueryHole) → Frames d content fun i => query d.toVocabulary (hole.fill (c i))
  | .filter q hole => by
      simp only [QueryHole.fill]
      exact frames_filter q (frames_fill hc h hole)
  | .having q hole => by
      simp only [QueryHole.fill]
      exact frames_having q (frames_fill hc h hole)
termination_by structural hole => hole

end

end

end Compile

/-! ## Cells -/

/-- A row from which the value of one entry is left out. -/
structure RowHole where
  left : List (String × Value)
  column : String
  right : List (String × Value)

namespace RowHole

/-- The row with a value in the place that is left out. -/
def fill (value : Value) (hole : RowHole) : Row :=
  ⟨hole.left ++ (hole.column, value) :: hole.right⟩

variable (hole : RowHole)

theorem columns_fill (value other : Value) :
    (hole.fill value).columns = (hole.fill other).columns := by
  simp [fill, Row.columns]

theorem alike_fill (value other : Value) :
    (hole.fill value).Alike Likeness.anyValues.values (hole.fill other) := by
  have hsame (entries : List (String × Value)) :
      (Row.mk entries).Alike Likeness.anyValues.values ⟨entries⟩ := .refl (fun _ => trivial) _
  exact List.rel_append (hsame hole.left) (.cons ⟨rfl, trivial⟩ (hsame hole.right))

theorem get?_fill_of_ne (value : Value) {column : String} (h : hole.column ≠ column) :
    (hole.fill value).get? column = (hole.fill .null).get? column := by
  simp [fill, Row.get?, List.find?_append, List.find?_cons_of_neg, h]

/-- A row that names every column once has one cell for the value, among columns that come once. -/
theorem framed_cells (hrow : (hole.fill .null).columns.Nodup) {columns : List String}
    (hcolumns : columns.Nodup) (hcolumn : hole.column ∈ columns) :
    Framed (fun value => [value]) fun value => (hole.fill value).cells columns := by
  obtain ⟨above, below, rfl⟩ := List.append_of_mem hcolumn
  obtain ⟨-, hbelow, hapart⟩ := List.nodup_append.mp hcolumns
  have hother : ∀ part : List String, hole.column ∉ part → ∀ value,
      (hole.fill value).cells part = (hole.fill .null).cells part := by
    intro part hpart value
    refine List.filterMap_congr fun column hmem => ?_
    exact hole.get?_fill_of_ne value fun h => hpart (h ▸ hmem)
  have habove := hother above fun hmem => hapart _ hmem _ List.mem_cons_self rfl
  have hbehind := hother below (List.nodup_cons.mp hbelow).1
  refine ⟨(hole.fill .null).cells above, (hole.fill .null).cells below, fun value => ?_⟩
  have hentry : (hole.column, value) ∈ (hole.fill value).entries := by simp [fill]
  have hvalue : (hole.fill value).get? hole.column = some value :=
    Row.get?_of_mem (hole.columns_fill value .null ▸ hrow) hentry
  rw [← habove value, ← hbehind value]
  simp [Row.cells, hvalue]

end RowHole

namespace Statement

open Piece (separated framed_separated framed_bracketed)

variable {d : Dialect} {v : Vocabulary} {s : Scope}

theorem framed_assignments (column : String → Piece) (hole : RowHole) :
    Framed (fun value => [.slot value]) fun value =>
      separated ", " ((hole.fill value).entries.map fun (name, value) =>
        assignment (column name) value) := by
  have hassignment : Framed (fun value => [.slot value]) fun value =>
      assignment (column hole.column) value :=
    ⟨[column hole.column, .word "="], [], fun value => by simp [assignment]⟩
  simp only [RowHole.fill, List.map_append, List.map_cons]
  exact hassignment.trans ((framed_separated _ _ _).comp _)

theorem framed_tuple {hole : RowHole} (hrow : (hole.fill .null).columns.Nodup)
    {columns : List String} (hcolumns : columns.Nodup) (hcolumn : hole.column ∈ columns) :
    Framed (fun value => [.slot value]) fun value => tuple columns (hole.fill value) := by
  obtain ⟨above, below, hcells⟩ := hole.framed_cells hrow hcolumns hcolumn
  have hpart : Framed (fun value => [.slot value]) fun value =>
      separated ", " (((hole.fill value).cells columns).map fun value => [.slot value]) := by
    simp only [hcells, List.map_append, List.append_assoc, List.map_cons,
      List.singleton_append]
    exact (framed_separated ", " _ _).comp _
  exact hpart.trans (framed_bracketed.comp _)

/-- The clauses of verbs that differ in one value all fail or all succeed, so that it is enough to
know what they are where they succeed. -/
theorem framedResults_of_values {a : Value → Option Action} {u : Value → Option Upsert}
    (haction : ∀ value, Option.Rel (Action.Alike Likeness.anyValues.values) (a .null) (a value))
    (hupsert : ∀ value, Option.Rel (Upsert.Alike Likeness.anyValues.values) (u .null) (u value))
    (hok : ∀ {found}, verbClause v s (a .null) (u .null) = .ok found →
      ∃ written : Value → List Piece, Framed (fun value => [.slot value]) written ∧
        ∀ value pieces, verbClause v s (a value) (u value) = .ok pieces →
          pieces = written value) :
    FramedResults d (fun value => [.slot value]) fun value =>
      verbClause v s (a value) (u value) := by
  -- All go the way of the clause with null in the place.
  have hagrees : ∀ value, Agrees (Piece.Alike .anyValues) (verbClause v s (a .null) (u .null))
      (verbClause v s (a value) (u value)) := fun value =>
    verbClause_alike (.refl .anyValues v) (.refl (fun _ => rfl) s) (haction value) (hupsert value)
  cases hnull : verbClause v s (a .null) (u .null) with
  | error e =>
      rw [hnull] at hagrees
      exact .inl ⟨e, fun value => (hagrees value).of_error⟩
  | ok found =>
      rw [hnull] at hagrees
      choose pieces hpieces _ using fun value => (hagrees value).of_ok
      obtain ⟨written, hframed, hwritten⟩ := hok hnull
      refine .inr ⟨pieces, hpieces, ?_⟩
      have heq : pieces = written := funext fun value => hwritten value _ (hpieces value)
      rw [heq]
      exact Piece.framed_allItems d hframed

theorem framedResults_update (hole : RowHole) (upsert : Option Upsert) :
    FramedResults d (fun value => [.slot value]) fun value =>
      verbClause v s (some (.update (hole.fill value))) upsert := by
  refine framedResults_of_values (a := fun value => some (.update (hole.fill value)))
    (u := fun _ => upsert) (fun value => .some (.update (hole.alike_fill .null value)))
    (fun _ => option_rel_refl (.refl fun _ => trivial) upsert) ?_
  · intro found h
    obtain ⟨_, ⟨rfl⟩, -, h⟩ := verbClause_ok.mp h
    obtain ⟨-, join, hjoin, -⟩ := updateClause_ok.mp h
    refine ⟨_, ((framed_assignments s.mainColumn hole).append
      (.word "UPDATE" :: .source s.table s.mainAlias :: (join ++ [.word "SET"])) []), ?_⟩
    intro value pieces h
    obtain ⟨_, ⟨rfl⟩, -, h⟩ := verbClause_ok.mp h
    obtain ⟨-, join', hjoin', rfl⟩ := updateClause_ok.mp h
    obtain rfl : join = join' := Except.ok.inj (hjoin.symm.trans hjoin')
    simp

/-- The cell of an inserted row, where every row names its columns once. -/
theorem framedResults_insert (first : Value → Row) (rest : Value → List Row) {hole : RowHole}
    {above below : List Row} (hrows : ∀ value, first value :: rest value =
      above ++ hole.fill value :: below)
    (hfirst : ∀ value, (first value).columns = (first .null).columns)
    (hnodup : ∀ row ∈ above ++ hole.fill .null :: below, row.columns.Nodup) (mode : InsertMode)
    (upsert : Option Upsert) :
    FramedResults d (fun value => [.slot value]) fun value =>
      verbClause v s (some (.insert (above ++ hole.fill value :: below) mode)) upsert := by
  refine framedResults_of_values
    (a := fun value => some (.insert (above ++ hole.fill value :: below) mode))
    (u := fun _ => upsert) ?_ (fun _ => option_rel_refl (.refl fun _ => trivial) upsert) ?_
  · intro value
    have hsame (rows : List Row) : List.Forall₂ (Row.Alike Likeness.anyValues.values) rows rows :=
      List.forall₂_same.mpr fun row _ => .refl (fun _ => trivial) row
    refine .some (.insert ?_ mode)
    exact List.rel_append (hsame above) (.cons (hole.alike_fill .null value) (hsame below))
  · intro found h
    obtain ⟨_, ⟨rfl⟩, -, h⟩ := verbClause_ok.mp h
    rw [actionClause, ← hrows] at h
    obtain ⟨-, hsame, word, hword, -⟩ := insertClause_ok.mp h
    rw [hrows] at hsame
    have hmem : hole.fill .null ∈ above ++ hole.fill .null :: below := by simp
    have hfirstMem : first .null ∈ above ++ hole.fill .null :: below := by simp [← hrows]
    have hcolumn : hole.column ∈ (first .null).columns :=
      (Row.sameColumns_iff.mp (hsame _ hmem)).2 (by simp [RowHole.fill, Row.columns])
    have htuple := framed_tuple (hnodup _ hmem) (hnodup _ hfirstMem) hcolumn
    have htuples : Framed (fun value => [.slot value]) fun value => separated ", "
        ((above ++ hole.fill value :: below).map (tuple (first .null).columns)) := by
      simp only [List.map_append, List.map_cons]
      exact htuple.trans ((framed_separated ", " _ _).comp _)
    refine ⟨_, htuples.append (.word word :: .table s.table ::
      (Piece.bracketed (separated ", " ((first .null).columns.map fun column => [.name column])) ++
        [.word "VALUES"])) (upsertClause v upsert (first .null).columns), ?_⟩
    intro value pieces h
    obtain ⟨_, ⟨rfl⟩, -, h⟩ := verbClause_ok.mp h
    rw [actionClause, ← hrows] at h
    obtain ⟨-, -, word', hword', -, rfl⟩ := insertClause_ok.mp h
    obtain rfl : word = word' := Except.ok.inj (hword.symm.trans hword')
    rw [hfirst, hrows]
    simp

theorem framedResults_upsert (action : Option Action) (hole : RowHole) :
    FramedResults d (fun value => [.slot value]) fun value =>
      verbClause v s action (some (.assign (hole.fill value))) := by
  refine framedResults_of_values (a := fun _ => action)
    (u := fun value => some (.assign (hole.fill value)))
    (fun _ => option_rel_refl (.refl fun _ => trivial) action)
    (fun value => .some (.assign (hole.alike_fill .null value))) ?_
  · intro found h
    obtain ⟨a, rfl, hinsert, h⟩ := verbClause_ok.mp h
    cases a with
    | insert rows mode =>
        cases rows with
        | nil => cases h
        | cons first rest =>
            obtain ⟨-, -, word, hword, -⟩ := insertClause_ok.mp h
            refine ⟨_, (framed_assignments Piece.name hole).append (.word word :: .table s.table ::
              (Piece.bracketed (separated ", " (first.columns.map fun column => [.name column])) ++
                .word "VALUES" :: (separated ", " ((first :: rest).map (tuple first.columns)) ++
                  [.word v.upsert]))) [], ?_⟩
            intro value pieces h
            obtain ⟨_, ⟨rfl⟩, -, h⟩ := verbClause_ok.mp h
            obtain ⟨-, -, word', hword', -, rfl⟩ := insertClause_ok.mp h
            obtain rfl : word = word' := Except.ok.inj (hword.symm.trans hword')
            simp [upsertClause]
    | _ => cases hinsert rfl

end Statement

namespace Compile

variable {ι : Type} {d : Dialect} {content : ι → List Item}

theorem frames_verb {action : ι → Option Action} {upsert : ι → Option Upsert} (q : Query)
    (h : ∀ s, FramedResults d content fun i =>
      Statement.verbClause d.toVocabulary s (action i) (upsert i)) :
    Frames d content fun i =>
      query d.toVocabulary { q with action := action i, upsert := upsert i } := by
  simp only [query]
  refine .after _ fun s => (Frames.lift (h s)).bind ?_
  refine .after _ fun filterPart => .after _ fun groupPart => .after _ fun havingPart =>
    .after _ fun orderPart => .wrap ?_
  exact ⟨[], filterPart ++ groupPart ++ havingPart ++ orderPart ++
    Statement.offsetClause q.offset ++ Statement.limitClause q.limit, fun pieces => by simp⟩

end Compile

/-! ## Places for data in a query -/

/-- A comparison whose right side is left out. -/
inductive Comparison where
  | compare (field : Field) (op : Operator)
  | spec (spec : String)

/-- The comparison with a right side. -/
def Comparison.against (x : Operand) : Comparison → Condition
  | .compare f op => .compare f op x
  | .spec text => .spec text x

/-- A query from which the value of one cell is left out: one that an UPDATE assigns, one of an
inserted row, one that an upsert assigns, or one of these in a nested statement. -/
inductive CellHole where
  | update (q : Query) (row : RowHole)
  | insert (q : Query) (above : List Row) (row : RowHole) (below : List Row) (mode : InsertMode)
  | upsert (q : Query) (row : RowHole)
  | nested (hole : QueryHole) (comparison : Comparison) (cell : CellHole)

namespace CellHole

/-- The query with a value in the cell that is left out. -/
def fill (value : Value) : CellHole → Query
  | update q row => { q with action := some (.update (row.fill value)) }
  | insert q above row below mode =>
    { q with action := some (.insert (above ++ row.fill value :: below) mode) }
  | upsert q row => { q with upsert := some (.assign (row.fill value)) }
  | nested hole comparison cell => hole.fill (comparison.against (.subquery (cell.fill value)))

/-- The rows among which a cell is inserted name their columns once, as rows do that come of setting
columns. -/
def NamesOnce : CellHole → Prop
  | update _ _ => True
  | insert _ above row below _ => ∀ r ∈ above ++ row.fill .null :: below, r.columns.Nodup
  | upsert _ _ => True
  | nested _ _ cell => cell.NamesOnce

end CellHole

namespace Compile

variable {ι : Type} {d : Dialect} {content : ι → List Item}

theorem isGroup_against (x : Operand) (comparison : Comparison) :
    (comparison.against x).isGroup = false := by
  cases comparison <;> rfl

theorem frames_against {x : ι → Operand} (comparison : Comparison)
    (h : Frames d content fun i => operand d.toVocabulary (x i)) (s : Scope) :
    Frames d content fun i => condition d.toVocabulary s (comparison.against (x i)) := by
  cases comparison with
  | compare f op =>
      simp only [Comparison.against, condition]
      exact frames_comparison f op h
  | spec spec =>
      simp only [Comparison.against, condition]
      exact .after _ fun read => frames_comparison read.1 read.2 h

/-- What a comparison compares with is put in one place of any query around it. -/
theorem frames_compared {x : ι → Operand} (hole : QueryHole) (comparison : Comparison)
    (h : Frames d content fun i => operand d.toVocabulary (x i)) :
    Frames d content fun i => query d.toVocabulary (hole.fill (comparison.against (x i))) :=
  frames_query (fun i => isGroup_against (x i) comparison) (frames_against comparison h) hole

/-- The value of a cell is put in one place, by the depth of the statement that it is in. -/
theorem frames_stored (cell : CellHole) (hcell : cell.NamesOnce) :
    Frames d (fun value => [.slot value]) fun value =>
      query d.toVocabulary (cell.fill value) := by
  induction cell with
  | update q row =>
      exact frames_verb q fun s => Statement.framedResults_update row q.upsert
  | insert q above row below mode =>
      refine frames_verb q fun s => ?_
      cases above with
      | nil =>
          exact Statement.framedResults_insert row.fill (fun _ => below) (fun _ => rfl)
            (fun value => row.columns_fill value .null) hcell mode q.upsert
      | cons first above =>
          exact Statement.framedResults_insert (fun _ => first)
            (fun value => above ++ row.fill value :: below) (fun _ => rfl) (fun _ => rfl) hcell
            mode q.upsert
  | upsert q row =>
      exact frames_verb q fun s => Statement.framedResults_upsert q.action row
  | nested hole comparison cell ih =>
      exact frames_compared hole comparison (frames_subquery (ih hcell))

end Compile

/-- Wherever the aliases start, the queries draw the same ones, and they all fail with the same
error or compile to clauses that are the same but for the content. -/
def Query.DifferIn {ι : Type} (d : Dialect) (content : ι → List Item) (q : ι → Query) : Prop :=
  ∀ supply, ∃ after, (∃ e, ∀ i, (q i).compile d supply = (.error e, after)) ∨
    ∃ front back, ∀ i, (q i).compile d supply =
      (.ok (Clause.ofItems d.placeholder (front ++ content i ++ back)), after)

theorem Compile.Frames.differIn {ι : Type} {d : Dialect} {content : ι → List Item}
    {q : ι → Query} (h : Compile.Frames d content fun i => Compile.query d.toVocabulary (q i)) :
    Query.DifferIn d content q := by
  intro supply
  obtain ⟨after, result, hrun, hresult⟩ := h supply
  have hcompile : ∀ i, (q i).compile d supply = ((result i).map (Clause.ofPieces d), after) := by
    intro i
    rw [Query.compile, Query.lower, hrun i]
  refine ⟨after, ?_⟩
  rcases hresult with ⟨e, he⟩ | ⟨pieces, hpieces, front, back, hframed⟩
  · left
    refine ⟨e, fun i => ?_⟩
    rw [hcompile, he]
    rfl
  · right
    refine ⟨front, back, fun i => ?_⟩
    rw [hcompile, hpieces, ← hframed]
    rfl

end BoundSql

import BoundSql.Proofs.Numbering
import BoundSql.Dialect.Shipped

/-! # Letters of statements within each other

The tables of a nested statement have other aliases than those of the statements around it, but
there are 26 letters only. No letter comes twice on the way into a query exactly as long as all its
statements together refer to no more tables than there are letters. -/

namespace BoundSql

/-- Among the statements of a query, each of them followed by those nested in it, the one lies
within the other. -/
def Encloses (runs : List Lowered) (outer inner : Lowered) : Prop :=
  ∃ before nested behind,
    runs = before ++ (outer :: nested ++ behind) ∧
    (outer :: nested).map Lowered.statement = outer.statement.statements ∧
    inner ∈ nested

/-- The statements have no letter in common. -/
def Lowered.LettersApart (l m : Lowered) : Prop :=
  ∀ r ∈ l.scope.references, ∀ r' ∈ m.scope.references, r.2.letter ≠ r'.2.letter

namespace Numbers

variable {v : Vocabulary} {q : Query} {statements : List Query} {bodies : List (List Piece)}
  {supply after : AliasSupply} {runs : List Lowered}

/-- Up to 26 references have different letters. -/
theorem pairwise_lettersApart (h : Numbers v statements bodies supply after runs)
    (hfew : (references statements).length ≤ 26) : runs.Pairwise Lowered.LettersApart := by
  have hletters := nodup_letter_numbered hfew supply.issued
  rw [← h.references_eq, List.Nodup, List.pairwise_map, List.pairwise_flatMap] at hletters
  exact hletters.2

theorem lettersApart_of_encloses (h : Numbers v statements bodies supply after runs)
    (hfew : (references statements).length ≤ 26) {outer inner : Lowered}
    (henclosed : Encloses runs outer inner) : outer.LettersApart inner := by
  obtain ⟨before, nested, behind, rfl, -, hinner⟩ := henclosed
  have hbehind := (List.pairwise_append.mp (h.pairwise_lettersApart hfew)).2.1
  exact List.rel_of_pairwise_cons hbehind (List.mem_append_left behind hinner)

/-- Among more than 26 references the 27th has the letter of the first one. -/
theorem exists_not_lettersApart (h : Numbers v q.statements bodies supply after runs)
    (hmany : 26 < q.references.length) :
    ∃ outer inner, Encloses runs outer inner ∧ ¬outer.LettersApart inner := by
  have hstatements := h.statements_eq
  rw [q.statements_eq] at hstatements
  obtain ⟨root, nested, rfl, rfl, hnested⟩ := List.map_eq_cons_iff.mp hstatements
  have hreferences : root.scope.references ++ (nested.flatMap fun l => l.scope.references) =
      numbered root.statement.references supply.issued := h.references_eq
  have hplace : ∀ {k t}, root.statement.references[k]? = some t →
      (root.scope.references ++ (nested.flatMap fun l => l.scope.references))[k]? =
        some (t, (⟨supply.issued + k⟩ : Alias)) := by
    intro k t ht
    simp [hreferences, numbered, List.getElem?_zipIdx, ht, Nat.add_comm]
  obtain ⟨first, hfirst⟩ : ∃ t, root.statement.references[0]? = some t :=
    ⟨_, List.getElem?_eq_getElem (by omega)⟩
  obtain ⟨last, hlast⟩ : ∃ t, root.statement.references[26]? = some t :=
    ⟨_, List.getElem?_eq_getElem hmany⟩
  have hmain : (first, (⟨supply.issued⟩ : Alias)) ∈ root.scope.references := by
    have hhead := hplace hfirst
    have hroot : (root.scope.table, root.scope.mainAlias) = (first, (⟨supply.issued⟩ : Alias)) := by
      simpa [Scope.references] using hhead
    rw [← hroot]
    exact List.mem_cons_self
  have hown : root.scope.references.length ≤ 26 := by
    unfold Scope.references
    cases root.scope.join <;> simp
  have hother := hplace hlast
  rw [List.getElem?_append_right hown] at hother
  obtain ⟨inner, hinner, hmem⟩ := List.mem_flatMap.mp (List.mem_of_getElem? hother)
  refine ⟨root, inner, ⟨[], nested, [], by simp, h.statements_eq, hinner⟩, fun hapart => ?_⟩
  refine hapart _ hmain _ hmem (Alias.letter_inj.mpr ?_)
  simp

end Numbers

/-- The letters of a nested statement differ from those of all statements around it exactly when
the query has at most 26 references. -/
theorem Query.compile_lettersApart_iff {d : Dialect} {q : Query} {supply after : AliasSupply}
    {c : Clause} (h : q.compile d supply = (.ok c, after)) :
    ∃ (pieces : List Piece) (runs : List Lowered),
      c = Clause.ofPieces d pieces ∧
      runs.map Lowered.statement = q.statements ∧
      runs.map Lowered.pieces = pieces :: Piece.allStatements pieces ∧
      (∀ l ∈ runs, l.Runs d.toVocabulary) ∧
      (runs.flatMap fun l => l.scope.references) = numbered q.references supply.issued ∧
      ((∀ outer inner, Encloses runs outer inner → outer.LettersApart inner) ↔
        q.references.length ≤ 26) := by
  obtain ⟨pieces, hpieces, rfl⟩ := compile_ok.mp h
  obtain ⟨runs, hruns⟩ := Compile.numbers_query q hpieces
  refine ⟨pieces, runs, rfl, hruns.statements_eq, hruns.bodies_eq, hruns.all_run,
    hruns.references_eq, ?_, ?_⟩
  · intro hapart
    refine Nat.le_of_not_lt fun hmany => ?_
    obtain ⟨outer, inner, henclosed, hnot⟩ := hruns.exists_not_lettersApart hmany
    exact hnot (hapart outer inner henclosed)
  · intro hfew outer inner henclosed
    exact hruns.lettersApart_of_encloses hfew henclosed

/-- In the statement for large orders every letter means one table. -/
theorem Query.compile_lettersApart_iff_largeOrders :
    ∃ (c : Clause) (runs : List Lowered),
      largeOrders.compile ShippedDialect.ansi.dialect {} = (.ok c, ⟨5⟩) ∧
      runs.map Lowered.statement = largeOrders.statements ∧
      ∀ outer inner, Encloses runs outer inner → outer.LettersApart inner := by
  obtain ⟨c, hcompile⟩ :
      ∃ c, largeOrders.compile ShippedDialect.ansi.dialect {} = (.ok c, ⟨5⟩) := ⟨_, rfl⟩
  obtain ⟨-, runs, -, hstatements, -, -, -, hapart⟩ := Query.compile_lettersApart_iff hcompile
  exact ⟨c, runs, hcompile, hstatements, hapart.mpr (by decide)⟩

/-- The numbers that are in the same table 26 times over. -/
def Query.crowded : Query where
  table := some ⟨"t", none⟩
  action := some (.select [.named "id"])
  filter := some (.group .and (List.replicate 26 (.compare (.named "id") .isIn (.subquery
    { table := some ⟨"t", none⟩
      action := some (.select [.named "id"]) }))))

set_option maxRecDepth 2000 in
/-- The last one of 26 nested statements has the letter of the statement around it. -/
theorem Query.not_lettersApart_crowded :
    ∃ (c : Clause) (runs : List Lowered),
      crowded.compile ShippedDialect.mysql.dialect {} = (.ok c, ⟨27⟩) ∧
      runs.map Lowered.statement = crowded.statements ∧
      (∀ l ∈ runs, l.Runs ShippedDialect.mysql.dialect.toVocabulary) ∧
      (runs.flatMap fun l => l.scope.references) = numbered crowded.references 0 ∧
      ∃ outer inner, Encloses runs outer inner ∧ ¬outer.LettersApart inner := by
  obtain ⟨c, hcompile⟩ :
      ∃ c, crowded.compile ShippedDialect.mysql.dialect {} = (.ok c, ⟨27⟩) := ⟨_, rfl⟩
  obtain ⟨pieces, hpieces, -⟩ := compile_ok.mp hcompile
  obtain ⟨runs, hruns⟩ := Compile.numbers_query crowded hpieces
  have hmany : 26 < crowded.references.length := by decide
  exact ⟨c, runs, hcompile, hruns.statements_eq, hruns.all_run, hruns.references_eq,
    hruns.exists_not_lettersApart hmany⟩

end BoundSql

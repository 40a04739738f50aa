import BoundSql.Proofs.Inserting
import Mathlib.Data.Finset.Card

/-! # Rows as ordered maps

A row that is built from a list of entries maps the columns of the list to their last values, in the
order in which the columns came first. Two such rows have the same columns exactly if the two lists
name the same set of columns. -/

namespace BoundSql.Row

/-! ## Setting a column -/

/-- Where a column is looked up, an entry that is set counts before all others. -/
theorem find?_setEntry (column : String) (value : Value) (entries : List (String × Value))
    (other : String) :
    (setEntry column value entries).find? (fun e => e.1 == other) =
      if column = other then some (column, value) else entries.find? fun e => e.1 == other := by
  induction entries with
  | nil => by_cases hother : column = other <;> simp [setEntry, hother]
  | cons entry rest ih =>
      obtain ⟨c, v⟩ := entry
      by_cases hc : c = column
      · subst hc
        by_cases hother : c = other <;> simp [setEntry, hother]
      · by_cases hother : c = other
        · have hne : column ≠ other := fun h => hc (hother.trans h.symm)
          rw [setEntry, if_neg hc, if_neg hne]
          simp [hother]
        · rw [setEntry, if_neg hc, List.find?_cons_of_neg (by simpa using hother), ih,
            List.find?_cons_of_neg (by simpa using hother)]

/-- The column that is set has the new value, and every other one has the value it had. -/
theorem get?_set (row : Row) (column : String) (value : Value) (other : String) :
    (row.set column value).get? other =
      if column = other then some value else row.get? other := by
  rw [get?, set, find?_setEntry]
  by_cases hother : column = other
  · rw [if_pos hother, if_pos hother, Option.map_some]
  · rw [if_neg hother, if_neg hother, get?]

/-! ## Collecting entries -/

theorem ofList_append_singleton (entries : List (String × Value)) (entry : String × Value) :
    ofList (entries ++ [entry]) = (ofList entries).set entry.1 entry.2 := by
  rw [ofList, List.foldl_append]
  rfl

/-- Setting columns one after the other is collecting the entries. -/
theorem built_iff {row : Row} : row.Built ↔ ∃ entries, row = ofList entries := by
  constructor
  · intro h
    induction h with
    | empty => exact ⟨[], rfl⟩
    | @set row column value _ ih =>
        obtain ⟨entries, rfl⟩ := ih
        exact ⟨entries ++ [(column, value)], (ofList_append_singleton entries (column, value)).symm⟩
  · rintro ⟨entries, rfl⟩
    exact built_ofList entries

/-- A column that is known already does not come again; a new one comes last. -/
theorem eraseDups_append_singleton (columns : List String) (column : String) :
    (columns ++ [column]).eraseDups =
      if column ∈ columns then columns.eraseDups else columns.eraseDups ++ [column] := by
  rw [List.eraseDups_append]
  by_cases hmem : column ∈ columns <;> simp [hmem, List.removeAll, List.eraseDups_cons]

theorem columns_ofList (entries : List (String × Value)) :
    (ofList entries).columns = (entries.map Prod.fst).eraseDups := by
  induction entries using List.reverseRecOn with
  | nil => rfl
  | append_singleton entries entry ih =>
      rw [ofList_append_singleton, columns_set, ih, List.map_append, List.map_singleton,
        eraseDups_append_singleton]
      simp only [List.mem_eraseDups]

theorem get?_ofList (entries : List (String × Value)) (column : String) :
    (ofList entries).get? column =
      ((entries.filter fun e => e.1 == column).getLast?).map Prod.snd := by
  induction entries using List.reverseRecOn with
  | nil => rfl
  | append_singleton entries entry ih =>
      rw [ofList_append_singleton, get?_set, ih, List.filter_append]
      by_cases hcolumn : entry.1 = column <;> simp [hcolumn]

theorem mem_columns_ofList {entries : List (String × Value)} {column : String} :
    column ∈ (ofList entries).columns ↔ column ∈ (entries.map Prod.fst).toFinset := by
  rw [columns_ofList, List.mem_eraseDups, List.mem_toFinset]

/-- The row maps the columns of a list of entries to their last values. The columns stand in the
order in which they come first. -/
structure Collects (row : Row) (entries : List (String × Value)) : Prop where
  columns_eq : row.columns = (entries.map Prod.fst).eraseDups
  columns_nodup : row.columns.Nodup
  get?_eq : ∀ column, row.get? column =
    ((entries.filter fun e => e.1 == column).getLast?).map Prod.snd
  size_eq : row.size = (entries.map Prod.fst).toFinset.card

theorem collects_ofList (entries : List (String × Value)) :
    (ofList entries).Collects entries := by
  have hnodup := (built_ofList entries).nodup_columns
  refine ⟨columns_ofList entries, hnodup, get?_ofList entries, ?_⟩
  have hset : (ofList entries).columns.toFinset = (entries.map Prod.fst).toFinset := by
    ext column
    rw [List.mem_toFinset, mem_columns_ofList]
  rw [← hset, List.toFinset_card_of_nodup hnodup, columns, List.length_map, size]

/-! ## Rows with the same columns -/

theorem Built.sameColumns_iff_sameSet {row other : Row} (hrow : row.Built) (hother : other.Built) :
    row.sameColumns other = true ↔ row.SameSet other :=
  Row.sameColumns_iff_sameSet hrow.nodup_columns hother.nodup_columns

theorem equivalence_sameSet : Equivalence SameSet where
  refl _ _ := Iff.rfl
  symm h column := (h column).symm
  trans h h' column := (h column).trans (h' column)

theorem sameColumns_ofList (entries others : List (String × Value)) :
    (ofList entries).sameColumns (ofList others) =
      decide ((entries.map Prod.fst).toFinset = (others.map Prod.fst).toFinset) := by
  rw [Bool.eq_iff_iff, decide_eq_true_iff,
    (built_ofList entries).sameColumns_iff_sameSet (built_ofList others), SameSet,
    Finset.ext_iff]
  simp only [mem_columns_ofList]

/-- The rows that come of setting columns are those of lists of entries. Such a row has every column
of the list once, in the order in which the columns come first, and with the last value that the
list has for it. Whether two of them have the same columns depends on the two sets of columns alone,
not on the order and the number of the entries, and is an equivalence. -/
theorem ofList_orderedMap :
    (∀ row : Row, row.Built ↔ ∃ entries, row = ofList entries) ∧
      (∀ entries, (ofList entries).Collects entries) ∧
      (∀ entries others, (ofList entries).sameColumns (ofList others) =
        decide ((entries.map Prod.fst).toFinset = (others.map Prod.fst).toFinset)) ∧
      Equivalence fun row other : { row : Row // row.Built } =>
        row.1.sameColumns other.1 = true := by
  refine ⟨fun row => built_iff, collects_ofList, sameColumns_ofList, ?_⟩
  have hsame (row other : { row : Row // row.Built }) :=
    row.2.sameColumns_iff_sameSet other.2
  constructor
  · intro row
    exact (hsame row row).mpr (equivalence_sameSet.refl row.1)
  · intro row other h
    exact (hsame other row).mpr (equivalence_sameSet.symm ((hsame row other).mp h))
  · intro row other third h h'
    exact (hsame row third).mpr
      (equivalence_sameSet.trans ((hsame row other).mp h) ((hsame other third).mp h'))

/-- A column that is set again keeps its place and takes the last value. -/
example : (ofList [("a", .int 1), ("b", .int 2), ("a", .int 3)]).columns = ["a", "b"] := by
  decide

end BoundSql.Row

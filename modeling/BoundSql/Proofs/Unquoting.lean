import BoundSql.Proofs.Quoting

/-! # Names read back from their quoted form

Quoting twice is quoting once. A name that does not have the quote at both ends can be read back
from its quoted form, so that no two such names are quoted alike. -/

namespace BoundSql.Identifier

variable {quote : Char} {name body text : List Char}

/-- The quote stands at both ends of the name. -/
def Delimited (quote : Char) (name : String) : Prop :=
  name.toList.head? = some quote ∧ name.toList.getLast? = some quote

instance (quote : Char) (name : String) : Decidable (Delimited quote name) :=
  inferInstanceAs (Decidable (_ ∧ _))

/-- The name in a quoted text, which is what stands between the first and the last character, with
one quote for every two that follow each other. -/
def unquote (quote : Char) (text : String) : String :=
  String.ofList (collapsed quote text.toList.tail.dropLast)

theorem isQuoted_of_not_delimited {name : String} (h : ¬ Delimited quote name) :
    isQuoted quote name.toList = false := by
  rw [← Bool.not_eq_true]
  intro hquoted
  simp only [isQuoted, Bool.and_eq_true, beq_iff_eq] at hquoted
  exact h ⟨hquoted.1.2, hquoted.2⟩

/-! ## Quoting twice -/

theorem byteLength_append (left right : List Char) :
    byteLength (left ++ right) = byteLength left + byteLength right := by
  induction left with
  | nil => simp [byteLength]
  | cons c rest ih =>
      rw [List.cons_append, byteLength, byteLength, ih]
      omega

/-- A text between two characters is at least two bytes long. -/
theorem two_le_byteLength (c d : Char) (text : List Char) :
    2 ≤ byteLength (c :: (text ++ [d])) := by
  have hc := Char.utf8Size_pos c
  have hd := Char.utf8Size_pos d
  rw [byteLength, byteLength_append, byteLength, byteLength]
  omega

/-- A quoted form counts as quoted. -/
theorem isQuoted_quoteChars (quote : Char) (name : List Char) :
    isQuoted quote (quoteChars quote name) = true := by
  cases hquoted : isQuoted quote name with
  | true => rw [quoteChars_of_isQuoted hquoted, hquoted]
  | false =>
      have hhead := head?_quoteChars quote name
      have hlast := getLast?_quoteChars quote name
      have hlength := two_le_byteLength quote quote (doubled quote name)
      rw [quoteChars_of_not_isQuoted hquoted] at hhead hlast ⊢
      simp [isQuoted, hhead, hlast, hlength]

theorem quote_quote (quote : Char) (name : String) :
    Identifier.quote quote (Identifier.quote quote name) = Identifier.quote quote name := by
  have hquoted := isQuoted_quoteChars quote name.toList
  rw [Identifier.quote, Identifier.quote, String.toList_ofList, quoteChars_of_isQuoted hquoted]

/-! ## Reading back -/

theorem toList_quote (quote : Char) (name : String) :
    (Identifier.quote quote name).toList = quoteChars quote name.toList := by
  rw [Identifier.quote, String.toList_ofList]

/-- Where quotes stand in pairs, doubling undoes collapsing. -/
theorem doubled_collapsed (h : Paired quote body) :
    doubled quote (collapsed quote body) = body := by
  induction h with
  | nil => rfl
  | @char c rest hc h ih =>
      have hdoubled : doubled quote (c :: collapsed quote rest) =
          c :: doubled quote (collapsed quote rest) := by
        simp [doubled, hc]
      rw [collapsed_cons hc, hdoubled, ih]
  | @pair rest h ih =>
      have hdoubled : doubled quote (quote :: collapsed quote rest) =
          quote :: quote :: doubled quote (collapsed quote rest) := by
        simp [doubled]
      rw [collapsed, if_pos ⟨rfl, rfl⟩, hdoubled, ih]

/-- The quoted form of a name that does not count as quoted is the one well quoted text from which
the name is read back. -/
theorem quote_eq_iff {name text : String} (h : isQuoted quote name.toList = false) :
    Identifier.quote quote name = text ↔
      WellQuoted quote text.toList ∧ unquote quote text = name := by
  constructor
  · rintro rfl
    have hcontent : content quote name.toList = name.toList := content_of_not_isQuoted h
    refine ⟨(wellQuoted_quote_iff quote name).mpr (.inl h), ?_⟩
    rw [content, ← toList_quote] at hcontent
    rw [unquote, hcontent, String.ofList_toList]
  · rintro ⟨⟨body, hbody, htext⟩, rfl⟩
    have hname : (unquote quote text).toList = collapsed quote body := by
      rw [unquote, String.toList_ofList, htext, List.tail_cons, List.dropLast_concat]
    rw [hname] at h
    rw [Identifier.quote, hname, quoteChars_of_not_isQuoted h, doubled_collapsed hbody, ← htext,
      String.ofList_toList]

theorem unquote_quote {name : String} (h : ¬ Delimited quote name) :
    unquote quote (Identifier.quote quote name) = name :=
  ((quote_eq_iff (isQuoted_of_not_delimited h)).mp rfl).2

/-- Quoting what is quoted changes nothing. Every name without the quote at both ends is read back
from its quoted form, and two such names that differ have quoted forms that differ. -/
theorem quote_reversible (quote : Char) :
    (∀ name : String, Identifier.quote quote (Identifier.quote quote name) =
      Identifier.quote quote name) ∧
    (∀ name : String, ¬ Delimited quote name →
      unquote quote (Identifier.quote quote name) = name) ∧
    ∀ name other : String, ¬ Delimited quote name → ¬ Delimited quote other → name ≠ other →
      Identifier.quote quote name ≠ Identifier.quote quote other := by
  refine ⟨quote_quote quote, fun name => unquote_quote, ?_⟩
  intro name other hname hother hne hquote
  have hback := congrArg (unquote quote) hquote
  rw [unquote_quote hname, unquote_quote hother] at hback
  exact hne hback

/-- With a quote of two bytes, for names that start or end with runs of it. -/
theorem quote_reversible_accents :
    ¬ Delimited 'é' "ééa" ∧ ¬ Delimited 'é' "aéé" ∧
      unquote 'é' (Identifier.quote 'é' "ééa") = "ééa" ∧
      Identifier.quote 'é' "ééa" ≠ Identifier.quote 'é' "aéé" ∧
      Identifier.quote 'é' (Identifier.quote 'é' "é") = Identifier.quote 'é' "é" := by
  have hfirst : ¬ Delimited 'é' "ééa" := by decide
  have hother : ¬ Delimited 'é' "aéé" := by decide
  obtain ⟨htwice, hback, happart⟩ := quote_reversible 'é'
  exact ⟨hfirst, hother, hback _ hfirst, happart _ _ hfirst hother (by decide), htwice _⟩

end BoundSql.Identifier

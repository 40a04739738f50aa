import BoundSql.Proofs.Joining
import Mathlib.Data.List.Flatten

/-! # Blank tokens at the ends of a stream

Joining drops one blank token at either end of a stream and writes all the others. Blank tokens
around a stream therefore leave its text as it is only where no more than one comes to stand at an
end. -/

namespace BoundSql.Token

variable {t u : Token} {blanks front core back rest left right small big tokens : List Token}

/-- The tokens consist of blanks only. Some of them may be empty. -/
def AllSpace (tokens : List Token) : Prop :=
  ∀ t ∈ tokens, t.isSpace = true

instance (tokens : List Token) : Decidable (AllSpace tokens) :=
  inferInstanceAs (Decidable (∀ t ∈ tokens, t.isSpace = true))

/-- The number of blank tokens at the front of a stream. Empty tokens do not count. -/
def blanksBefore (tokens : List Token) : Nat :=
  ((words tokens).takeWhile isSpace).length

/-- The number of blank tokens at the end of a stream. Empty tokens do not count. -/
def blanksBehind (tokens : List Token) : Nat :=
  ((words tokens).reverse.takeWhile isSpace).length

theorem AllSpace.words (h : AllSpace tokens) : AllSpace (words tokens) := by
  intro t ht
  exact h t (List.mem_filter.mp ht).1

theorem AllSpace.append (hleft : AllSpace left) (hright : AllSpace right) :
    AllSpace (left ++ right) :=
  List.forall_mem_append.mpr ⟨hleft, hright⟩

/-! ## Blank tokens in the text -/

/-- Blank tokens are written as they are in front of other tokens. -/
theorem spaced_blanks_append (h : AllSpace blanks) (rest : List Token) :
    spaced (blanks ++ rest) = blanks.flatMap chars ++ spaced rest := by
  induction blanks with
  | nil => rfl
  | cons t blanks ih =>
      obtain ⟨ht, hblanks⟩ := List.forall_mem_cons.mp h
      have hbehind := ih hblanks
      cases hothers : blanks ++ rest with
      | nil =>
          obtain ⟨rfl, rfl⟩ := List.append_eq_nil_iff.mp hothers
          simp [spaced]
      | cons u others =>
          have hgap : gap t u = [] := by simp [gap, tight, ht]
          rw [hothers] at hbehind
          rw [List.cons_append, hothers, spaced, hgap, hbehind]
          simp

/-- Blank tokens are written as they are behind other tokens. -/
theorem spaced_append_blanks (h : AllSpace blanks) (tokens : List Token) :
    spaced (tokens ++ blanks) = spaced tokens ++ blanks.flatMap chars := by
  have hblanks : spaced blanks = blanks.flatMap chars := by
    simpa [spaced] using spaced_blanks_append h []
  cases ht : tokens.getLast? with
  | none =>
      obtain rfl := List.getLast?_eq_none_iff.mp ht
      simpa [spaced] using hblanks
  | some t =>
      cases hu : blanks.head? with
      | none =>
          obtain rfl := List.head?_eq_none_iff.mp hu
          simp
      | some u =>
          have huSpace : u.isSpace = true := h u (List.mem_of_mem_head? hu)
          have hgap : gap t u = [] := by simp [gap, tight, huSpace]
          rw [spaced_append ht hu, hgap, hblanks, List.append_nil]

/-! ## What is dropped -/

theorem dropLeadingSpace_append (hfront : AllSpace front)
    (hrest : ∀ t ∈ rest.head?, t.isSpace = false) :
    dropLeadingSpace (front ++ rest) = front.tail ++ rest := by
  cases front with
  | nil =>
      cases rest with
      | nil => rfl
      | cons t rest => simp [dropLeadingSpace, hrest t rfl]
  | cons t front => simp [dropLeadingSpace, hfront t (by simp)]

theorem dropTrailingSpace_concat (tokens : List Token) (t : Token) :
    dropTrailingSpace (tokens ++ [t]) = if t.isSpace then tokens else tokens ++ [t] := by
  induction tokens with
  | nil => rfl
  | cons u rest ih =>
      have hne : rest ++ [t] ≠ [] := by simp
      obtain ⟨v, others, hothers⟩ := List.exists_cons_of_ne_nil hne
      rw [List.cons_append, hothers, dropTrailingSpace, ← hothers, ih]
      · split <;> rfl
      · simp

theorem dropTrailingSpace_append (hback : AllSpace back)
    (hrest : ∀ t ∈ rest.getLast?, t.isSpace = false) :
    dropTrailingSpace (rest ++ back) = rest ++ back.dropLast := by
  rcases List.eq_nil_or_concat back with rfl | ⟨back, t, rfl⟩
  · rcases List.eq_nil_or_concat rest with rfl | ⟨rest, t, rfl⟩
    · rfl
    · have ht : t.isSpace = false := hrest t (by simp)
      simp [dropTrailingSpace_concat, ht]
  · have ht : t.isSpace = true := hback t (by simp)
    rw [List.concat_eq_append, List.dropLast_concat, ← List.append_assoc,
      dropTrailingSpace_concat, if_pos ht]

/-! ## The two kinds of streams -/

/-- The first and the last token are not blank. -/
structure Edged (core : List Token) : Prop where
  first : ∃ t, core.head? = some t ∧ t.isSpace = false
  last : ∃ t, core.getLast? = some t ∧ t.isSpace = false

/-- The tokens with characters are blank ones, tokens from one that is not blank to another such,
and blank ones again. -/
structure Parted (tokens front core back : List Token) : Prop where
  words_eq : words tokens = front ++ core ++ back
  front_blank : AllSpace front
  core_edged : Edged core
  back_blank : AllSpace back

theorem exists_first_solid (h : ∃ t ∈ tokens, t.isSpace = false) :
    ∃ front t rest, tokens = front ++ t :: rest ∧ AllSpace front ∧ t.isSpace = false := by
  induction tokens with
  | nil => simp at h
  | cons u tokens ih =>
      cases hu : u.isSpace with
      | false => exact ⟨[], u, tokens, rfl, by simp [AllSpace], hu⟩
      | true =>
          have htail : ∃ t ∈ tokens, t.isSpace = false := by simpa [hu] using h
          obtain ⟨front, t, rest, rfl, hfront, ht⟩ := ih htail
          exact ⟨u :: front, t, rest, rfl, List.forall_mem_cons.mpr ⟨hu, hfront⟩, ht⟩

/-- A stream is blank throughout or has these three parts. -/
theorem exists_parted (h : ∃ t ∈ tokens, t.isSpace = false) :
    ∃ front core back, Parted tokens front core back := by
  have hwords : ∃ t ∈ words tokens, t.isSpace = false := by
    obtain ⟨t, ht, htSolid⟩ := h
    exact ⟨t, List.mem_filter.mpr ⟨ht, by simp [isEmpty_eq_false_of_not_isSpace htSolid]⟩, htSolid⟩
  obtain ⟨front, t, rest, hfirst, hfront, ht⟩ := exists_first_solid hwords
  have hbehind : ∃ u ∈ (t :: rest).reverse, u.isSpace = false := ⟨t, by simp, ht⟩
  obtain ⟨back, u, inner, hreverse, hback, hu⟩ := exists_first_solid hbehind
  have hsplit : t :: rest = inner.reverse ++ [u] ++ back.reverse := by
    simpa using congrArg List.reverse hreverse
  have hhead : (inner.reverse ++ [u]).head? = some t := by
    have hheads := congrArg List.head? hsplit
    cases hinner : inner.reverse with
    | nil => simpa [hinner] using hheads.symm
    | cons v others => simpa [hinner] using hheads.symm
  refine ⟨front, inner.reverse ++ [u], back.reverse, ?_, hfront, ⟨⟨t, hhead, ht⟩, u, ?_, hu⟩, ?_⟩
  · rw [hfirst, hsplit]
    simp
  · simp
  · intro v hv
    exact hback v (List.mem_reverse.mp hv)

theorem takeWhile_isSpace_append (hfront : AllSpace front)
    (hrest : ∀ t ∈ rest.head?, t.isSpace = false) : (front ++ rest).takeWhile isSpace = front := by
  rw [List.takeWhile_append_of_pos hfront]
  cases rest with
  | nil => simp
  | cons t rest => simp [hrest t rfl]

namespace Parted

variable (h : Parted tokens front core back)

include h

theorem append_left (hleft : AllSpace left) :
    Parted (left ++ tokens) (words left ++ front) core back where
  words_eq := by
    rw [words_append, h.words_eq]
    simp
  front_blank := hleft.words.append h.front_blank
  core_edged := h.core_edged
  back_blank := h.back_blank

theorem append_right (hright : AllSpace right) :
    Parted (tokens ++ right) front core (back ++ words right) where
  words_eq := by
    rw [words_append, h.words_eq]
    simp
  front_blank := h.front_blank
  core_edged := h.core_edged
  back_blank := h.back_blank.append hright.words

theorem front_nonempty : ∀ t ∈ front, t.isEmpty = false := by
  intro t ht
  have hmem : t ∈ words tokens := by simp [h.words_eq, ht]
  exact isEmpty_eq_false_of_mem_words hmem

theorem back_nonempty : ∀ t ∈ back, t.isEmpty = false := by
  intro t ht
  have hmem : t ∈ words tokens := by simp [h.words_eq, ht]
  exact isEmpty_eq_false_of_mem_words hmem

theorem blanksBefore_eq : blanksBefore tokens = front.length := by
  obtain ⟨t, ht, htSolid⟩ := h.core_edged.first
  have hhead : ∀ u ∈ (core ++ back).head?, u.isSpace = false := by
    simp [List.head?_append, ht, htSolid]
  rw [blanksBefore, h.words_eq, List.append_assoc, takeWhile_isSpace_append h.front_blank hhead]

theorem blanksBehind_eq : blanksBehind tokens = back.length := by
  obtain ⟨t, ht, htSolid⟩ := h.core_edged.last
  have hhead : ∀ u ∈ (core.reverse ++ front.reverse).head?, u.isSpace = false := by
    simp [List.head?_append, List.head?_reverse, ht, htSolid]
  have hreverse : AllSpace back.reverse := fun u hu => h.back_blank u (List.mem_reverse.mp hu)
  rw [blanksBehind, h.words_eq, List.reverse_append, List.reverse_append,
    takeWhile_isSpace_append hreverse hhead, List.length_reverse]

/-- All blank tokens but the outermost are written. -/
theorem joinChars_eq :
    joinChars tokens =
      front.tail.flatMap chars ++ spaced core ++ back.dropLast.flatMap chars := by
  obtain ⟨t, ht, htSolid⟩ := h.core_edged.first
  obtain ⟨u, hu, huSolid⟩ := h.core_edged.last
  have hlead : dropLeadingSpace (front ++ (core ++ back)) = front.tail ++ (core ++ back) := by
    refine dropLeadingSpace_append h.front_blank ?_
    simp [List.head?_append, ht, htSolid]
  have htrail : dropTrailingSpace (front.tail ++ core ++ back) =
      front.tail ++ core ++ back.dropLast := by
    refine dropTrailingSpace_append h.back_blank ?_
    simp [List.getLast?_append, hu, huSolid]
  have hfront : AllSpace front.tail := fun v hv => h.front_blank v (List.mem_of_mem_tail hv)
  have hback : AllSpace back.dropLast := fun v hv =>
    h.back_blank v (List.dropLast_subset back hv)
  have hjoin : joinChars tokens = spaced (dropTrailingSpace (dropLeadingSpace (words tokens))) :=
    rfl
  rw [hjoin, h.words_eq, List.append_assoc, hlead, ← List.append_assoc, htrail,
    spaced_append_blanks hback, spaced_blanks_append hfront]

end Parted

/-- Of blank tokens only, all but the first and the last are written. -/
theorem joinChars_of_allSpace (h : AllSpace tokens) :
    joinChars tokens = (words tokens).tail.dropLast.flatMap chars := by
  have hfirst : ∀ t ∈ ([] : List Token).head?, t.isSpace = false := by simp
  have hlast : ∀ t ∈ ([] : List Token).getLast?, t.isSpace = false := by simp
  have hlead : dropLeadingSpace (words tokens) = (words tokens).tail := by
    simpa using dropLeadingSpace_append h.words hfirst
  have hblanks : AllSpace (words tokens).tail := fun t ht => h.words t (List.mem_of_mem_tail ht)
  have htrail : dropTrailingSpace (words tokens).tail = (words tokens).tail.dropLast := by
    simpa using dropTrailingSpace_append hblanks hlast
  have hinner : AllSpace (words tokens).tail.dropLast := fun t ht =>
    hblanks t (List.dropLast_subset _ ht)
  have hjoin : joinChars tokens = spaced (dropTrailingSpace (dropLeadingSpace (words tokens))) :=
    rfl
  rw [hjoin, hlead, htrail]
  simpa [spaced] using spaced_blanks_append hinner []

/-! ## More blank tokens, more text -/

theorem sublist_dropLast (h : small.Sublist big) : small.dropLast.Sublist big.dropLast := by
  have hreverse := h.reverse.tail
  rw [List.tail_reverse, List.tail_reverse] at hreverse
  exact List.reverse_sublist.mp hreverse

/-- Tokens with characters have a text as long as that of some of them only if these are all. -/
theorem length_flatMap_chars_eq_iff (h : small.Sublist big) (hne : ∀ t ∈ big, t.isEmpty = false) :
    (big.flatMap chars).length = (small.flatMap chars).length ↔ big.length = small.length := by
  induction h with
  | slnil => simp
  | @cons small big t hrest ih =>
      obtain ⟨ht, -⟩ := List.forall_mem_cons.mp hne
      have hchars : 0 < t.chars.length := by
        rw [List.length_pos_iff]
        simpa [isEmpty] using ht
      -- A token more on the left makes both sides false, as it has characters.
      have htexts := (hrest.flatMap chars).length_le
      have htokens := hrest.length_le
      simp only [List.flatMap_cons, List.length_append, List.length_cons]
      omega
  | @cons_cons small big t hrest ih =>
      obtain ⟨-, hothers⟩ := List.forall_mem_cons.mp hne
      have hiff := ih hothers
      simp only [List.flatMap_cons, List.length_append, List.length_cons]
      omega

/-- A text between tokens stays the same exactly if no token is added on either side. -/
theorem flatMap_around_eq_iff {frontSmall frontBig backSmall backBig : List Token}
    (hfront : frontSmall.Sublist frontBig) (hback : backSmall.Sublist backBig)
    (hfrontNe : ∀ t ∈ frontBig, t.isEmpty = false) (hbackNe : ∀ t ∈ backBig, t.isEmpty = false)
    (text : List Char) :
    frontBig.flatMap chars ++ text ++ backBig.flatMap chars =
        frontSmall.flatMap chars ++ text ++ backSmall.flatMap chars ↔
      frontBig.length = frontSmall.length ∧ backBig.length = backSmall.length := by
  have hfrontText := (hfront.flatMap chars).length_le
  have hbackText := (hback.flatMap chars).length_le
  have hfrontIff := length_flatMap_chars_eq_iff hfront hfrontNe
  have hbackIff := length_flatMap_chars_eq_iff hback hbackNe
  constructor
  · intro htexts
    have hlength := congrArg List.length htexts
    simp only [List.length_append] at hlength
    exact ⟨hfrontIff.mp (by omega), hbackIff.mp (by omega)⟩
  · rintro ⟨hfrontLength, hbackLength⟩
    rw [hfront.eq_of_length hfrontLength.symm, hback.eq_of_length hbackLength.symm]

theorem join_eq_iff : join left = join right ↔ joinChars left = joinChars right := by
  rw [join, join, String.ofList_inj]

/-! ## Blank tokens around a stream -/

/-- Around a stream with a token that is not blank, blank tokens change nothing exactly if on either
side all of them are empty, or just one blank token comes to stand at that end of the whole. -/
theorem join_around_solid_iff (hleft : AllSpace left) (hright : AllSpace right)
    (h : ∃ t ∈ tokens, t.isSpace = false) :
    join (left ++ tokens ++ right) = join tokens ↔
      (words left = [] ∨ blanksBefore (left ++ tokens) ≤ 1) ∧
        (words right = [] ∨ blanksBehind (tokens ++ right) ≤ 1) := by
  obtain ⟨front, core, back, hparted⟩ := exists_parted h
  have hbefore := hparted.append_left hleft
  have hbehind := hparted.append_right hright
  have hall := hbefore.append_right hright
  have hfront : front.tail.Sublist (words left ++ front).tail :=
    (List.sublist_append_right (words left) front).tail
  have hback : back.dropLast.Sublist (back ++ words right).dropLast :=
    sublist_dropLast (List.sublist_append_left back (words right))
  have hfrontNe : ∀ t ∈ (words left ++ front).tail, t.isEmpty = false := fun t ht =>
    hall.front_nonempty t (List.mem_of_mem_tail ht)
  have hbackNe : ∀ t ∈ (back ++ words right).dropLast, t.isEmpty = false := fun t ht =>
    hall.back_nonempty t (List.dropLast_subset _ ht)
  -- Both texts have the same core, and what is written around it differs by whole tokens.
  rw [join_eq_iff, hall.joinChars_eq, hparted.joinChars_eq,
    flatMap_around_eq_iff hfront hback hfrontNe hbackNe, hbefore.blanksBefore_eq,
    hbehind.blanksBehind_eq, ← List.length_eq_zero_iff, ← List.length_eq_zero_iff]
  simp only [List.length_tail, List.length_dropLast, List.length_append]
  omega

/-- Blank tokens around blank tokens change nothing exactly if all the former are empty, or if there
are two blank tokens at most in the whole. -/
theorem join_around_allSpace_iff (hleft : AllSpace left) (hright : AllSpace right)
    (h : AllSpace tokens) :
    join (left ++ tokens ++ right) = join tokens ↔
      words (left ++ right) = [] ∨ (words (left ++ tokens ++ right)).length ≤ 2 := by
  have hall : AllSpace (left ++ tokens ++ right) := (hleft.append h).append hright
  have hinside : (words tokens).Sublist (words (left ++ tokens ++ right)) := by
    rw [words_append, words_append, List.append_assoc]
    exact (List.sublist_append_left _ _).trans (List.sublist_append_right _ _)
  have hinner := sublist_dropLast hinside.tail
  have hne : ∀ t ∈ (words (left ++ tokens ++ right)).tail.dropLast, t.isEmpty = false := fun t ht =>
    isEmpty_eq_false_of_mem_words (List.mem_of_mem_tail (List.dropLast_subset _ ht))
  have hiff := flatMap_around_eq_iff hinner (List.Sublist.refl []) hne (by simp) []
  simp only [List.flatMap_nil, List.append_nil, and_true] at hiff
  rw [join_eq_iff, joinChars_of_allSpace hall, joinChars_of_allSpace h, hiff,
    ← List.length_eq_zero_iff]
  simp only [List.length_tail, List.length_dropLast, words_append, List.length_append]
  omega

/-- When blank tokens around a stream leave its text as it is. A stream of blank tokens only joins
to the empty text exactly if there are two of them at most. -/
theorem join_surrounded_iff (hleft : AllSpace left) (hright : AllSpace right) :
    ((∃ t ∈ tokens, t.isSpace = false) →
      (join (left ++ tokens ++ right) = join tokens ↔
        (words left = [] ∨ blanksBefore (left ++ tokens) ≤ 1) ∧
          (words right = [] ∨ blanksBehind (tokens ++ right) ≤ 1))) ∧
    (AllSpace tokens →
      (join (left ++ tokens ++ right) = join tokens ↔
        words (left ++ right) = [] ∨ (words (left ++ tokens ++ right)).length ≤ 2)) ∧
    (join left = "" ↔ (words left).length ≤ 2) := by
  refine ⟨join_around_solid_iff hleft hright, join_around_allSpace_iff hleft hright, ?_⟩
  have hnothing : join ([] : List Token) = "" := rfl
  have hnone : AllSpace ([] : List Token) := by simp [AllSpace]
  have hiff := join_around_allSpace_iff hleft hnone hnone
  simp only [List.append_nil, hnothing] at hiff
  rw [hiff, ← List.length_eq_zero_iff]
  omega

/-- One blank token on either side of a verb is dropped. -/
theorem join_surrounded_iff_delete :
    AllSpace [text " ", text ""] ∧ AllSpace [text "\n"] ∧
      join ([text " ", text ""] ++ [text "DELETE"] ++ [text "\n"]) = join [text "DELETE"] ∧
      join ([text " ", text ""] ++ [text "\t"] ++ [text "\n"]) ≠ join [text "\t"] ∧
      join [text " ", text ""] = "" := by
  have hleft : AllSpace [text " ", text ""] := by decide
  have hright : AllSpace [text "\n"] := by decide
  obtain ⟨hsolid, -, hempty⟩ := @join_surrounded_iff _ _ [text "DELETE"] hleft hright
  obtain ⟨-, hblank, -⟩ := @join_surrounded_iff _ _ [text "\t"] hleft hright
  refine ⟨hleft, hright, (hsolid (by decide)).mpr (by decide), ?_, hempty.mpr (by decide)⟩
  rw [ne_eq, hblank (by decide)]
  decide

/-- Two blank tokens in front of a stream show in its text, and so do three of them alone. -/
theorem not_join_surrounded :
    (¬ ∀ left tokens right : List Token, AllSpace left → AllSpace right →
      join (left ++ tokens ++ right) = join tokens) ∧
    ¬ ∀ tokens : List Token, AllSpace tokens → join tokens = "" := by
  constructor
  · intro h
    have hdelete := h [text " ", text " "] [text "DELETE"] [] (by decide) (by decide)
    rw [join_eq_iff] at hdelete
    exact absurd hdelete (by decide)
  · intro h
    have hblank := h [text " ", text " ", text " "] (by decide)
    have hchars : joinChars [text " ", text " ", text " "] = joinChars [] := join_eq_iff.mp hblank
    exact absurd hchars (by decide)

end BoundSql.Token

import BoundSql.Token
import Mathlib.Data.List.Forall2

/-! # Joining runs of tokens

The text of tokens that are not blank is the text of a first run of them, a gap, and the text of
the rest. Where the gap is a space on both sides of a run, the run is a phrase. -/

namespace BoundSql.Token

open Text

/-! ## Runs of tokens -/

/-- The tokens that have characters. -/
def words (tokens : List Token) : List Token :=
  tokens.filter fun t => !t.isEmpty

/-- No token consists of blanks only. Empty tokens may be among the tokens. -/
def Solid (tokens : List Token) : Prop :=
  ∀ t ∈ words tokens, t.isSpace = false

theorem words_append (left right : List Token) :
    words (left ++ right) = words left ++ words right :=
  List.filter_append left right

theorem words_cons_of_isEmpty {t : Token} (h : t.isEmpty = true) (rest : List Token) :
    words (t :: rest) = words rest := by
  simp [words, h]

theorem words_cons_of_not_isEmpty {t : Token} (h : t.isEmpty = false) (rest : List Token) :
    words (t :: rest) = t :: words rest := by
  simp [words, h]

theorem Solid.append {left right : List Token} (hleft : Solid left) (hright : Solid right) :
    Solid (left ++ right) := by
  intro t ht
  rw [words_append] at ht
  rcases List.mem_append.mp ht with ht | ht
  · exact hleft t ht
  · exact hright t ht

theorem isSpace_eq_false_of_mem {t : Token} {c : Char} (hc : c ∈ t.chars)
    (hblank : isBlank c = false) : t.isSpace = false := by
  cases hspace : t.isSpace with
  | false => rfl
  | true =>
      have hall : ∀ c ∈ t.chars, isBlank c = true := by simpa [isSpace, allBlank] using hspace
      simp [hall c hc] at hblank

/-- A token that starts with no blank is not blank. -/
theorem isSpace_eq_false {t : Token} (hne : t.isEmpty = false)
    (hopens : opensTight t.chars = false) : t.isSpace = false := by
  rw [isEmpty] at hne
  cases hchars : t.chars with
  | nil => simp [hchars] at hne
  | cons c cs =>
      rw [hchars] at hopens
      simp only [opensTight, List.head?_cons, Bool.or_eq_false_iff] at hopens
      exact isSpace_eq_false_of_mem (by simp [hchars]) hopens.2

/-- A token that is not blank has characters. -/
theorem isEmpty_eq_false_of_not_isSpace {t : Token} (h : t.isSpace = false) :
    t.isEmpty = false := by
  cases hchars : t.chars with
  | nil => simp [isSpace, allBlank, hchars] at h
  | cons c cs => simp [isEmpty, hchars]

theorem isEmpty_eq_false_of_mem_words {t : Token} {tokens : List Token} (h : t ∈ words tokens) :
    t.isEmpty = false := by
  simpa [words] using (List.mem_filter.mp h).2

/-! ## The text of two runs -/

theorem gap_eq (t u : Token) : gap t u = [' '] ∨ gap t u = [] := by
  unfold gap
  cases tight t u <;> simp

/-- Characters that leave a space beside them do so at the ends of two neighbours. -/
theorem gap_eq_space {t u : Token} {c d : Char} (hfunction : t.isFunction = false)
    (ht : t.chars.getLast? = some c) (hcloses : closesTight [c] = false)
    (hu : u.chars.head? = some d) (hopens : opensTight [d] = false) : gap t u = [' '] := by
  have htcloses : closesTight t.chars = false := by simpa [closesTight, ht] using hcloses
  have huopens : opensTight u.chars = false := by simpa [opensTight, hu] using hopens
  simp only [closesTight, List.getLast?_singleton, Bool.or_eq_false_iff] at hcloses
  simp only [opensTight, List.head?_cons, Bool.or_eq_false_iff] at hopens
  have htspace := isSpace_eq_false_of_mem (List.mem_of_getLast? ht) hcloses.2
  have huspace := isSpace_eq_false_of_mem (List.mem_of_mem_head? hu) hopens.2
  simp [gap, tight, hfunction, htspace, huspace, htcloses, huopens]

theorem spaced_cons {t : Token} {rest : List Token} {u : Token} (hu : rest.head? = some u) :
    spaced (t :: rest) = t.chars ++ gap t u ++ spaced rest := by
  cases rest with
  | nil => cases hu
  | cons _ rest =>
      cases hu
      rw [spaced]

theorem spaced_append {left right : List Token} {t u : Token} (ht : left.getLast? = some t)
    (hu : right.head? = some u) :
    spaced (left ++ right) = spaced left ++ gap t u ++ spaced right := by
  induction left with
  | nil => cases ht
  | cons first rest ih =>
      cases rest with
      | nil =>
          obtain rfl : first = t := by simpa using ht
          rw [List.singleton_append, spaced_cons hu, spaced]
      | cons second rest =>
          have htail := ih (by simpa using ht)
          have hsecond : (second :: rest ++ right).head? = some second := rfl
          rw [List.cons_append, spaced_cons hsecond, htail, spaced]
          simp

theorem head?_spaced_cons {t : Token} (ht : t.isEmpty = false) (rest : List Token) :
    (spaced (t :: rest)).head? = t.chars.head? := by
  have hchars : t.chars ≠ [] := by simpa [isEmpty] using ht
  cases rest with
  | nil => rfl
  | cons u rest => simp [spaced, List.head?_append, List.head?_eq_some_head hchars]

theorem dropLeadingSpace_split (tokens : List Token) :
    ∃ lead, tokens = lead ++ dropLeadingSpace tokens ∧ ∀ t ∈ lead, t.isSpace = true := by
  cases tokens with
  | nil => exact ⟨[], rfl, by simp⟩
  | cons t rest =>
      by_cases ht : t.isSpace = true
      · exact ⟨[t], by simp [dropLeadingSpace, ht], by simp [ht]⟩
      · exact ⟨[], by simp [dropLeadingSpace, ht], by simp⟩

theorem dropTrailingSpace_split (tokens : List Token) :
    ∃ trail, tokens = dropTrailingSpace tokens ++ trail ∧ ∀ t ∈ trail, t.isSpace = true := by
  induction tokens with
  | nil => exact ⟨[], rfl, by simp⟩
  | cons t rest ih =>
      cases rest with
      | nil =>
          by_cases ht : t.isSpace = true
          · exact ⟨[t], by simp [dropTrailingSpace, ht], by simp [ht]⟩
          · exact ⟨[], by simp [dropTrailingSpace, ht], by simp⟩
      | cons u rest =>
          obtain ⟨trail, hsplit, htrail⟩ := ih
          exact ⟨trail, congrArg (t :: ·) hsplit, htrail⟩

/-- What is joined is all the tokens that are not empty, but for blank ones at the ends. -/
theorem joinChars_split (tokens : List Token) :
    ∃ lead kept trail, words tokens = lead ++ kept ++ trail ∧
      (∀ t ∈ lead ++ trail, t.isSpace = true) ∧ joinChars tokens = spaced kept := by
  obtain ⟨lead, hlead, hblankLead⟩ := dropLeadingSpace_split (words tokens)
  obtain ⟨trail, htrail, hblankTrail⟩ := dropTrailingSpace_split (dropLeadingSpace (words tokens))
  refine ⟨lead, dropTrailingSpace (dropLeadingSpace (words tokens)), trail, ?_, ?_, rfl⟩
  · rw [List.append_assoc, ← htrail, ← hlead]
  · exact List.forall_mem_append.mpr ⟨hblankLead, hblankTrail⟩

/-- Only empty tokens are left out where no token is blank. -/
theorem joinChars_eq_spaced {tokens : List Token} (h : Solid tokens) :
    joinChars tokens = spaced (words tokens) := by
  obtain ⟨lead, kept, trail, hwords, hblank, hjoin⟩ := joinChars_split tokens
  have hnone : lead ++ trail = [] := by
    refine List.eq_nil_iff_forall_not_mem.mpr fun t ht => ?_
    have hmem : t ∈ words tokens := by
      rw [hwords]
      rcases List.mem_append.mp ht with ht | ht <;> simp [ht]
    have hsolid := h t hmem
    simp [hblank t ht] at hsolid
  obtain ⟨rfl, rfl⟩ := List.append_eq_nil_iff.mp hnone
  simpa [hwords] using hjoin

/-- An empty token leaves no trace. -/
theorem join_cons_of_isEmpty {t : Token} (h : t.isEmpty = true) (rest : List Token) :
    join (t :: rest) = join rest := by
  have hfilter := words_cons_of_isEmpty h rest
  rw [words, words] at hfilter
  rw [join, join, joinChars, joinChars, hfilter]

/-- Tokens that join to a text, with the first and the last one that count. -/
structure Run (tokens : List Token) (text : String) (first last : Token) : Prop where
  solid : Solid tokens
  join_eq : join tokens = text
  first_eq : (words tokens).head? = some first
  last_eq : (words tokens).getLast? = some last

namespace Run

variable {left right tokens : List Token} {a b text : String} {first last t u : Token}

theorem singleton (hne : t.isEmpty = false) (hspace : t.isSpace = false) :
    Run [t] t.spelling t t := by
  have hwords : words [t] = [t] := words_cons_of_not_isEmpty hne []
  have hsolid : Solid [t] := by
    intro other hother
    obtain rfl : other = t := by simpa [hwords] using hother
    exact hspace
  exact {
    solid := hsolid
    join_eq := by
      rw [join, joinChars_eq_spaced hsolid, hwords]
      exact String.ofList_toList
    first_eq := by rw [hwords]; rfl
    last_eq := by rw [hwords]; rfl }

/-- Between two runs there is the gap between the last token and the first. -/
theorem append (h : Run left a first t) (hright : Run right b u last) :
    Run (left ++ right) (a ++ String.ofList (gap t u) ++ b) first last where
  solid := h.solid.append hright.solid
  join_eq := by
    have hchars : joinChars (left ++ right) = joinChars left ++ gap t u ++ joinChars right := by
      rw [joinChars_eq_spaced (h.solid.append hright.solid), joinChars_eq_spaced h.solid,
        joinChars_eq_spaced hright.solid, words_append, spaced_append h.last_eq hright.first_eq]
    rw [join, hchars, String.ofList_append, String.ofList_append, ← h.join_eq, ← hright.join_eq]
    rfl
  first_eq := by simp [words_append, List.head?_append, h.first_eq]
  last_eq := by simp [words_append, List.getLast?_append, hright.last_eq]

/-- An empty token before a run changes nothing. -/
theorem cons_of_isEmpty (ht : t.isEmpty = true) (h : Run tokens text first last) :
    Run (t :: tokens) text first last where
  solid := by
    intro u hu
    rw [words_cons_of_isEmpty ht] at hu
    exact h.solid u hu
  join_eq := (join_cons_of_isEmpty ht tokens).trans h.join_eq
  first_eq := by rw [words_cons_of_isEmpty ht, h.first_eq]
  last_eq := by rw [words_cons_of_isEmpty ht, h.last_eq]

theorem text_ne_empty (h : Run tokens text first last) : text ≠ "" := by
  have hmem : first ∈ words tokens := List.mem_of_mem_head? h.first_eq
  have hchars : first.chars ≠ [] := by
    have hnonempty := (List.mem_filter.mp hmem).2
    simpa [isEmpty] using hnonempty
  have hspaced : spaced (words tokens) ≠ [] := by
    cases hwords : words tokens with
    | nil => simp [hwords] at hmem
    | cons u rest =>
        obtain rfl : u = first := by simpa [hwords] using h.first_eq
        cases rest with
        | nil => simpa [spaced] using hchars
        | cons next rest => simp [spaced, hchars]
  intro htext
  have hjoin := h.join_eq.trans htext
  rw [join, joinChars_eq_spaced h.solid] at hjoin
  exact hspaced (by simpa using congrArg String.toList hjoin)

end Run

/-! ## Phrases -/

/-- Tokens that join to a text, and that stand a space apart from other such tokens before and
after them. -/
def Phrase (tokens : List Token) (text : String) : Prop :=
  ∃ first last, Run tokens text first last ∧ opensTight first.chars = false ∧
    last.isFunction = false ∧ closesTight last.chars = false

/-- Between phrases the token is written as the text. -/
def Between (token : Token) (text : String) : Prop :=
  ∀ {left right : List Token} {a b : String}, Phrase left a → Phrase right b →
    Phrase (left ++ token :: right) (a ++ text ++ b)

namespace Phrase

variable {left right tokens : List Token} {a b text w : String}

theorem join_eq (h : Phrase tokens text) : join tokens = text := by
  obtain ⟨first, last, hrun, -⟩ := h
  exact hrun.join_eq

theorem text_ne_empty (h : Phrase tokens text) : text ≠ "" := by
  obtain ⟨first, last, hrun, -⟩ := h
  exact hrun.text_ne_empty

/-- A word is a phrase. -/
theorem word (hne : w ≠ "") (hopens : opensTight w.toList = false)
    (hcloses : closesTight w.toList = false) : Phrase [.text w] w := by
  have hnonempty : (Token.text w).isEmpty = false := by
    simpa [isEmpty, chars, spelling] using hne
  have hspace := isSpace_eq_false (t := .text w) hnonempty hopens
  exact ⟨_, _, .singleton hnonempty hspace, hopens, rfl, hcloses⟩

/-- Phrases stand a space apart. -/
theorem append (h : Phrase left a) (hright : Phrase right b) :
    Phrase (left ++ right) (a ++ " " ++ b) := by
  obtain ⟨first, t, hrun, hfirst, hfunction, hcloses⟩ := h
  obtain ⟨u, last, hrunRight, hopens, hlast⟩ := hright
  have ht : t.isSpace = false := hrun.solid t (List.mem_of_getLast? hrun.last_eq)
  have hu : u.isSpace = false := hrunRight.solid u (List.mem_of_mem_head? hrunRight.first_eq)
  have hgap : gap t u = [' '] := by
    simp [gap, tight, ht, hu, hfunction, hcloses, hopens]
  have hall := hrun.append hrunRight
  rw [hgap] at hall
  exact ⟨first, last, hall, hfirst, hlast⟩

/-- A word between phrases stands a space apart from both. -/
theorem between_word (hw : Phrase [.text w] w) : Between (.text w) (" " ++ w ++ " ") := by
  intro left right a b h hright
  have hall := (h.append hw).append hright
  rw [List.append_assoc] at hall
  simpa [String.append_assoc] using hall

/-- A mark that leaves no space on either side stands between phrases as it is. -/
theorem between_mark (hspace : (Token.text w).isSpace = false)
    (hopens : opensTight w.toList = true) (hcloses : closesTight w.toList = true) :
    Between (.text w) w := by
  intro left right a b h hright
  obtain ⟨first, t, hrun, hfirst, -⟩ := h
  obtain ⟨u, last, hrunRight, -, hlast⟩ := hright
  have hnonempty : (Token.text w).isEmpty = false := by
    cases hw : w.toList with
    | nil => simp [opensTight, hw] at hopens
    | cons c cs => simp [isEmpty, chars, spelling, hw]
  have hmark := Run.singleton hnonempty hspace
  have hbefore : gap t (.text w) = [] := by
    have htight : opensTight (Token.text w).chars = true := hopens
    simp [gap, tight, htight]
  have hafter : gap (.text w) u = [] := by
    have htight : closesTight (Token.text w).chars = true := hcloses
    simp [gap, tight, htight]
  have hall := hrun.append (hmark.append hrunRight)
  rw [hbefore, hafter] at hall
  refine ⟨first, last, ?_, hfirst, hlast⟩
  simpa [spelling, String.append_assoc] using hall

/-- The name of a function stands right before its arguments. -/
theorem call (hopens : opensTight w.toList = false) (h : Phrase tokens text) :
    Phrase (.function w :: tokens) (w ++ text) := by
  obtain ⟨first, last, hrun, hfirst, hlast⟩ := h
  cases hempty : (Token.function w).isEmpty with
  | true =>
      have hw : w = "" := by simpa [isEmpty, chars, spelling] using hempty
      subst hw
      exact ⟨first, last, by simpa using hrun.cons_of_isEmpty hempty, hfirst, hlast⟩
  | false =>
      have hname := Run.singleton hempty (isSpace_eq_false (t := .function w) hempty hopens)
      have hgap : gap (.function w) first = [] := by simp [gap, tight, isFunction]
      have hall := hname.append hrun
      rw [hgap] at hall
      refine ⟨.function w, last, ?_, hopens, hlast⟩
      simpa [spelling] using hall

theorem run_open : Run [.text "("] "(" (.text "(") (.text "(") :=
  .singleton (by decide) (by decide)

theorem run_close : Run [.text ")"] ")" (.text ")") (.text ")") :=
  .singleton (by decide) (by decide)

/-- Brackets stand right around a phrase. -/
theorem bracketed (h : Phrase tokens text) :
    Phrase (.text "(" :: (tokens ++ [.text ")"])) ("(" ++ text ++ ")") := by
  obtain ⟨first, last, hrun, -⟩ := h
  have hbefore : gap (.text "(") first = [] := by
    have htight : closesTight (Token.text "(").chars = true := by decide
    simp [gap, tight, htight]
  have hafter : gap last (.text ")") = [] := by
    have htight : opensTight (Token.text ")").chars = true := by decide
    simp [gap, tight, htight]
  have hall := run_open.append (hrun.append run_close)
  rw [hbefore, hafter] at hall
  refine ⟨.text "(", .text ")", ?_, by decide, rfl, by decide⟩
  simpa [String.append_assoc] using hall

theorem empty_brackets : Phrase [.text "(", .text ")"] "()" := by
  have hgap : gap (.text "(") (.text ")") = [] := by decide
  have hall := run_open.append run_close
  rw [hgap] at hall
  exact ⟨.text "(", .text ")", hall, by decide, rfl, by decide⟩

/-- Phrases with the same token between every two of them. -/
theorem intercalate {token : Token} {glue : String} (hglue : Between token glue)
    {parts : List (List Token)} {texts : List String} (hne : parts ≠ [])
    (h : List.Forall₂ Phrase parts texts) :
    Phrase ([token].intercalate parts) (glue.intercalate texts) := by
  induction h with
  | nil => exact absurd rfl hne
  | cons hpart hrest ih =>
      cases hrest with
      | nil => simpa using hpart
      | cons hnext hothers =>
          have hbehind := ih (by simp)
          rw [List.intercalate_cons_cons, String.intercalate_cons_cons]
          simpa using hglue hpart hbehind

end Phrase

/-! ## Clauses that may be missing -/

/-- Clauses that are phrases or missing stand a space apart, as if the missing ones were not
there. -/
theorem phrase_flatten {parts : List (List Token)} {texts : List String}
    (h : List.Forall₂ (fun tokens text => Phrase tokens text ∨ tokens = [] ∧ text = "") parts
      texts) :
    Phrase parts.flatten (" ".intercalate (texts.filter (· ≠ ""))) ∨
      parts.flatten = [] ∧ texts.filter (· ≠ "") = [] := by
  induction h with
  | nil => exact .inr ⟨rfl, rfl⟩
  | @cons tokens text parts texts hpart hrest ih =>
      rcases hpart with hphrase | ⟨rfl, rfl⟩
      · have hfilter : (text :: texts).filter (· ≠ "") = text :: texts.filter (· ≠ "") := by
          simp [hphrase.text_ne_empty]
        rw [List.flatten_cons, hfilter]
        rcases ih with hbehind | ⟨hnone, hempty⟩
        · cases hothers : texts.filter (· ≠ "") with
          | nil =>
              rw [hothers] at hbehind
              exact absurd rfl hbehind.text_ne_empty
          | cons next others =>
              rw [hothers] at hbehind
              rw [String.intercalate_cons_cons]
              exact .inl (hphrase.append hbehind)
        · rw [hnone, hempty]
          exact .inl (by simpa using hphrase)
      · simpa using ih

end BoundSql.Token

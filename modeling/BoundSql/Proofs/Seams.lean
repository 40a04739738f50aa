import BoundSql.Proofs.Joining

/-! # Seams between joined texts

Tokens may be joined in parts. What stands at the seam of two parts depends on the last token of the
first part and on the first token of the second, and it is at most one space. -/

namespace BoundSql.Token

open Text

variable {t u : Token} {left right tokens rest : List Token}

/-- Nothing stands between two tokens behind the name of a function, behind an opening bracket, a
comma or a blank, and before a closing bracket, a comma or a blank. -/
def Touch (t u : Token) : Prop :=
  t.isFunction = true ∨ (∃ c ∈ t.chars.getLast?, c = '(' ∨ c = ',' ∨ isBlank c = true) ∨
    ∃ c ∈ u.chars.head?, c = ')' ∨ c = ',' ∨ isBlank c = true

theorem closesTight_iff (cs : List Char) :
    closesTight cs = true ↔ ∃ c ∈ cs.getLast?, c = '(' ∨ c = ',' ∨ isBlank c = true := by
  unfold closesTight
  cases cs.getLast? with
  | none => simp
  | some c => simp [or_assoc]

theorem opensTight_iff (cs : List Char) :
    opensTight cs = true ↔ ∃ c ∈ cs.head?, c = ')' ∨ c = ',' ∨ isBlank c = true := by
  unfold opensTight
  cases cs.head? with
  | none => simp
  | some c => simp [or_assoc]

theorem touch_iff (t u : Token) :
    Touch t u ↔ t.isFunction = true ∨ closesTight t.chars = true ∨ opensTight u.chars = true := by
  rw [Touch, closesTight_iff, opensTight_iff]

instance (t u : Token) : Decidable (Touch t u) :=
  decidable_of_decidable_of_iff (touch_iff t u).symm

instance (tokens : List Token) : Decidable (Solid tokens) :=
  inferInstanceAs (Decidable (∀ t ∈ words tokens, t.isSpace = false))

/-! ## The gap at a seam -/

/-- What stands between two tokens that are not blank. -/
def seam (t u : Token) : String :=
  if Touch t u then "" else " "

theorem tight_iff_touch (ht : t.isSpace = false) (hu : u.isSpace = false) :
    tight t u = true ↔ Touch t u := by
  rw [touch_iff]
  simp [tight, ht, hu, or_assoc]

theorem gap_eq_seam (ht : t.isSpace = false) (hu : u.isSpace = false) :
    gap t u = (seam t u).toList := by
  have htight := tight_iff_touch ht hu
  by_cases htouch : Touch t u
  · simp [gap, seam, htight.mpr htouch, htouch]
  · have hloose : tight t u = false := by
      rw [← Bool.not_eq_true, htight]
      exact htouch
    simp [gap, seam, hloose, htouch]

/-! ## Parts of a stream -/

/-- Only the tokens with characters count. -/
theorem join_eq_of_words_eq (h : words left = words right) : join left = join right := by
  unfold words at h
  rw [join, join, joinChars, joinChars, h]

theorem words_eq_nil (h : ∀ t ∈ tokens, t.isEmpty = true) : words tokens = [] := by
  rw [words, List.filter_eq_nil_iff]
  intro t ht
  simp [h t ht]

theorem Solid.of_cons (h : Solid (t :: rest)) : Solid rest := by
  intro u hu
  refine h u ?_
  rw [← List.singleton_append, words_append]
  exact List.mem_append_right _ hu

/-- Two parts are joined one by one, with the seam between their texts. -/
theorem join_append_eq (hleft : Solid left) (hright : Solid right)
    (ht : (words left).getLast? = some t) (hu : (words right).head? = some u) :
    join (left ++ right) = join left ++ seam t u ++ join right := by
  have htSolid : t.isSpace = false := hleft t (List.mem_of_getLast? ht)
  have huSolid : u.isSpace = false := hright u (List.mem_of_mem_head? hu)
  have hchars : joinChars (left ++ right) =
      joinChars left ++ (seam t u).toList ++ joinChars right := by
    rw [joinChars_eq_spaced (hleft.append hright), words_append, spaced_append ht hu,
      gap_eq_seam htSolid huSolid, joinChars_eq_spaced hleft, joinChars_eq_spaced hright]
  rw [join, hchars, String.ofList_append, String.ofList_append, String.ofList_toList]
  rfl

theorem join_singleton (h : t.isSpace = false) : join [t] = t.spelling :=
  (Run.singleton (isEmpty_eq_false_of_not_isSpace h) h).join_eq

theorem join_of_isEmpty (h : ∀ t ∈ tokens, t.isEmpty = true) : join tokens = "" := by
  have hwords : words tokens = words [] := words_eq_nil h
  exact join_eq_of_words_eq hwords

theorem join_insert_empties {empties : List Token} (h : ∀ t ∈ empties, t.isEmpty = true) :
    join (left ++ empties ++ right) = join (left ++ right) := by
  refine join_eq_of_words_eq ?_
  simp [words_append, words_eq_nil h]

/-! ## The order of the texts -/

/-- The texts of tokens one after the other, with a space between some of them. There is no blank on
either side of such a space. -/
inductive Typeset : List Token → List Char → Prop where
  | nil : Typeset [] []
  | together (t : Token) {rest : List Token} {text : List Char} (h : Typeset rest text) :
      Typeset (t :: rest) (t.chars ++ text)
  | apart (t : Token) {rest : List Token} {text : List Char} {c d : Char}
      (hc : t.chars.getLast? = some c) (hcBlank : isBlank c = false)
      (hd : text.head? = some d) (hdBlank : isBlank d = false) (h : Typeset rest text) :
      Typeset (t :: rest) (t.chars ++ ' ' :: text)

/-- Tokens that do not touch have no blank where they face each other. -/
theorem not_isBlank_of_not_touch (h : ¬ Touch t u) :
    (∀ c ∈ t.chars.getLast?, isBlank c = false) ∧ ∀ d ∈ u.chars.head?, isBlank d = false := by
  constructor
  · intro c hc
    rw [← Bool.not_eq_true]
    intro hblank
    exact h (.inr (.inl ⟨c, hc, .inr (.inr hblank)⟩))
  · intro d hd
    rw [← Bool.not_eq_true]
    intro hblank
    exact h (.inr (.inr ⟨d, hd, .inr (.inr hblank)⟩))

/-- One more token in front of a run of tokens that have characters. -/
theorem Typeset.spaced_cons {text : List Char} (ht : t.isSpace = false) (hu : u.isSpace = false)
    (h : Typeset rest text) (hhead : text.head? = u.chars.head?) :
    Typeset (t :: rest) (t.chars ++ gap t u ++ text) := by
  rw [gap_eq_seam ht hu]
  by_cases htouch : Touch t u
  · simpa [seam, htouch] using h.together t
  · obtain ⟨htBlank, huBlank⟩ := not_isBlank_of_not_touch htouch
    have htChars : t.chars ≠ [] := by
      simpa [isEmpty] using isEmpty_eq_false_of_not_isSpace ht
    have huChars : u.chars ≠ [] := by
      simpa [isEmpty] using isEmpty_eq_false_of_not_isSpace hu
    have hc := List.getLast?_eq_some_getLast htChars
    have hd := List.head?_eq_some_head huChars
    have hall := Typeset.apart t hc (htBlank _ hc) (hhead.trans hd) (huBlank _ hd) h
    simpa [seam, htouch] using hall

/-- Joining writes every text in its place. -/
theorem typeset_joinChars (h : Solid tokens) : Typeset tokens (joinChars tokens) := by
  induction tokens with
  | nil => exact .nil
  | cons t rest ih =>
      have hrest := ih h.of_cons
      have hjoin := joinChars_eq_spaced h
      rw [joinChars_eq_spaced h.of_cons] at hrest
      cases hempty : t.isEmpty with
      | true =>
          have hchars : t.chars = [] := by simpa [isEmpty] using hempty
          rw [words_cons_of_isEmpty hempty] at hjoin
          rw [hjoin]
          simpa [hchars] using hrest.together t
      | false =>
          rw [words_cons_of_not_isEmpty hempty] at hjoin
          have ht : t.isSpace = false := h t (by rw [words_cons_of_not_isEmpty hempty]; simp)
          cases hwords : words rest with
          | nil =>
              rw [hwords] at hrest hjoin
              rw [hjoin]
              simpa [spaced] using hrest.together t
          | cons u others =>
              have hmem : u ∈ words rest := by simp [hwords]
              have hu : u.isSpace = false := h.of_cons u hmem
              rw [hwords] at hrest hjoin
              rw [hjoin, Token.spaced]
              exact hrest.spaced_cons ht hu
                (head?_spaced_cons (isEmpty_eq_false_of_not_isSpace hu) others)

/-- Tokens among which none is blank, though some may be empty, are joined part by part: what stands
at a seam is decided by the two tokens beside it. A token alone joins to its own text, and empty
tokens count for nothing. No text is lost or changed or put elsewhere, and no blank stands beside a
space that joining has put in. -/
theorem join_seams :
    (∀ {left right : List Token} {t u : Token}, Solid left → Solid right →
      (words left).getLast? = some t → (words right).head? = some u →
      join (left ++ right) = join left ++ seam t u ++ join right) ∧
    (∀ t : Token, t.isSpace = false → join [t] = t.spelling) ∧
    (∀ tokens : List Token, (∀ t ∈ tokens, t.isEmpty = true) → join tokens = "") ∧
    (∀ left empties right : List Token, (∀ t ∈ empties, t.isEmpty = true) →
      join (left ++ empties ++ right) = join (left ++ right)) ∧
    ∀ tokens : List Token, Solid tokens → Typeset tokens (join tokens).toList := by
  refine ⟨join_append_eq, fun t => join_singleton, fun tokens => join_of_isEmpty,
    fun left empties right => join_insert_empties, ?_⟩
  intro tokens h
  rw [join, String.toList_ofList]
  exact typeset_joinChars h

/-- Parts that meet behind the name of a function and parts that meet at two words, with empty
tokens at the seams. -/
theorem join_seams_count :
    let verb := [text "SELECT", text "", function "COUNT", text ""]
    let counted := [text "", text "(", text "1", text ")"]
    let named := [text "AS", text "n"]
    Solid verb ∧ Solid counted ∧ Solid named ∧
      join (verb ++ counted) = join verb ++ "" ++ join counted ∧
      join (counted ++ named) = join counted ++ " " ++ join named ∧
      join [text "n"] = "n" ∧ join [text "", text ""] = "" ∧
      join (verb ++ [text "", text ""] ++ named) = join (verb ++ named) ∧
      Typeset named (join named).toList := by
  intro verb counted named
  obtain ⟨hseam, hsingle, hempty, hinsert, htypeset⟩ := join_seams
  have hverb : Solid verb := by decide
  have hcounted : Solid counted := by decide
  have hnamed : Solid named := by decide
  have htouch : Touch (function "COUNT") (text "(") := .inl rfl
  have happart : ¬ Touch (text ")") (text "AS") := by decide
  have hcall : seam (function "COUNT") (text "(") = "" := if_pos htouch
  have hwords : seam (text ")") (text "AS") = " " := if_neg happart
  have hname : (text "n").isSpace = false := by decide
  have hnothing : ∀ t ∈ [text "", text ""], t.isEmpty = true := by decide
  refine ⟨hverb, hcounted, hnamed, ?_, ?_, hsingle _ hname, hempty _ hnothing,
    hinsert verb _ named hnothing, htypeset named hnamed⟩
  · rw [← hcall]
    exact hseam hverb hcounted (by decide) (by decide)
  · rw [← hwords]
    exact hseam hcounted hnamed (by decide) (by decide)

end BoundSql.Token

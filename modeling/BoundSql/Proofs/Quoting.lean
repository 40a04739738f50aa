import BoundSql.Proofs.Joining
import BoundSql.Proofs.Lowering.Shipped

/-! # Quoted identifiers in a statement

A quoted identifier is well quoted when the quote stands in pairs between its two ends. Names come
into a statement in their quoted form only. -/

namespace BoundSql

namespace Identifier

/-! ## Well quoted texts -/

/-- The quote stands in the text in pairs only. -/
inductive Paired (quote : Char) : List Char → Prop where
  | nil : Paired quote []
  | char {c : Char} {rest : List Char} (hc : c ≠ quote) (h : Paired quote rest) :
      Paired quote (c :: rest)
  | pair {rest : List Char} (h : Paired quote rest) : Paired quote (quote :: quote :: rest)

/-- The text is an opening quote, a body in which the quote stands in pairs only, and a closing
quote. -/
def WellQuoted (quote : Char) (text : List Char) : Prop :=
  ∃ body, Paired quote body ∧ text = quote :: (body ++ [quote])

variable {quote : Char} {name text : List Char}

theorem paired_doubled (quote : Char) (name : List Char) : Paired quote (doubled quote name) := by
  induction name with
  | nil => exact .nil
  | cons c rest ih =>
      by_cases hc : c = quote
      · subst hc
        simpa [doubled] using ih.pair
      · simpa [doubled, hc] using Paired.char hc ih

theorem quoteChars_of_isQuoted (h : isQuoted quote name = true) : quoteChars quote name = name := by
  simp [quoteChars, h]

theorem quoteChars_of_not_isQuoted (h : isQuoted quote name = false) :
    quoteChars quote name = quote :: (doubled quote name ++ [quote]) := by
  simp [quoteChars, h]

theorem head?_quoteChars (quote : Char) (name : List Char) :
    (quoteChars quote name).head? = some quote := by
  cases h : isQuoted quote name with
  | false => simp [quoteChars_of_not_isQuoted h]
  | true =>
      rw [quoteChars_of_isQuoted h]
      simp only [isQuoted, Bool.and_eq_true, beq_iff_eq] at h
      exact h.1.2

theorem getLast?_quoteChars (quote : Char) (name : List Char) :
    (quoteChars quote name).getLast? = some quote := by
  cases h : isQuoted quote name with
  | false => rw [quoteChars_of_not_isQuoted h, ← List.cons_append, List.getLast?_concat]
  | true =>
      rw [quoteChars_of_isQuoted h]
      simp only [isQuoted, Bool.and_eq_true, beq_iff_eq] at h
      exact h.2

/-- The quoted form of a name is well quoted exactly if a name that counts as quoted is. -/
theorem wellQuoted_quoteChars_iff (quote : Char) (name : List Char) :
    WellQuoted quote (quoteChars quote name) ↔
      (isQuoted quote name = true → WellQuoted quote name) := by
  constructor
  · intro h hquoted
    rwa [quoteChars_of_isQuoted hquoted] at h
  · intro h
    cases hquoted : isQuoted quote name with
    | true =>
        rw [quoteChars_of_isQuoted hquoted]
        exact h hquoted
    | false =>
        have hbody := paired_doubled quote name
        exact ⟨doubled quote name, hbody, quoteChars_of_not_isQuoted hquoted⟩

/-- The quoted form of a name is one quoted identifier exactly if the name does not count as quoted
or is well quoted already. -/
theorem wellQuoted_quote_iff (quote : Char) (name : String) :
    WellQuoted quote (Identifier.quote quote name).toList ↔
      isQuoted quote name.toList = false ∨ WellQuoted quote name.toList := by
  rw [Identifier.quote, String.toList_ofList, wellQuoted_quoteChars_iff]
  cases isQuoted quote name.toList <;> simp

/-! ## Reading identifiers -/

/-- What a reader of a text has seen: it is outside of identifiers, or inside of one with the name
read so far, or behind a quote that ends the name unless another quote follows. -/
inductive Reading where
  | outside
  | inside (name : List Char)
  | closing (name : List Char)

/-- The names of the quoted identifiers in a text, unless the last one is not closed. -/
def readFrom (quote : Char) : Reading → List Char → Option (List (List Char))
  | .outside, [] => some []
  | .inside _, [] => none
  | .closing name, [] => some [name]
  | .outside, c :: rest => readFrom quote (if c = quote then .inside [] else .outside) rest
  | .inside name, c :: rest =>
    readFrom quote (if c = quote then .closing name else .inside (name ++ [c])) rest
  | .closing name, c :: rest =>
    if c = quote then readFrom quote (.inside (name ++ [quote])) rest
    else (readFrom quote .outside rest).map (name :: ·)

/-- The names of the quoted identifiers in a text. -/
def identifiers (quote : Char) (text : List Char) : Option (List (List Char)) :=
  readFrom quote .outside text

/-- The text with one quote for every two that follow each other, from the left. -/
def collapsed (quote : Char) : List Char → List Char
  | c :: d :: rest =>
    if c = quote ∧ d = quote then quote :: collapsed quote rest
    else c :: collapsed quote (d :: rest)
  | text => text

theorem collapsed_cons {c : Char} (hc : c ≠ quote) (rest : List Char) :
    collapsed quote (c :: rest) = c :: collapsed quote rest := by
  cases rest <;> simp [collapsed, hc]

theorem collapsed_doubled (quote : Char) (name : List Char) :
    collapsed quote (doubled quote name) = name := by
  induction name with
  | nil => rfl
  | cons c rest ih =>
      by_cases hc : c = quote
      · subst hc
        simpa [doubled, collapsed] using ih
      · have hdoubled : doubled quote (c :: rest) = c :: doubled quote rest := by
          simp [doubled, hc]
        rw [hdoubled, collapsed_cons hc, ih]

/-- The name that an identifier stands for. -/
def content (quote : Char) (name : List Char) : List Char :=
  collapsed quote (quoteChars quote name).tail.dropLast

theorem content_of_not_isQuoted (h : isQuoted quote name = false) : content quote name = name := by
  rw [content, quoteChars_of_not_isQuoted h, List.tail_cons, List.dropLast_concat,
    collapsed_doubled]

theorem readFrom_paired {body : List Char} (h : Paired quote body) (name rest : List Char) :
    readFrom quote (.inside name) (body ++ quote :: rest) =
      readFrom quote (.closing (name ++ collapsed quote body)) rest := by
  induction h generalizing name with
  | nil => simp [readFrom, collapsed]
  | char hc h ih =>
      rw [List.cons_append, readFrom, if_neg hc, ih, collapsed_cons hc]
      simp
  | pair h ih =>
      rw [List.cons_append, List.cons_append, readFrom, if_pos rfl, readFrom, if_pos rfl, ih,
        collapsed, if_pos ⟨rfl, rfl⟩]
      simp

/-- A name ends at its last quote unless another quote follows. -/
theorem readFrom_closing (hnext : text.head? ≠ some quote) :
    readFrom quote (.closing name) text = (readFrom quote .outside text).map (name :: ·) := by
  cases text with
  | nil => rfl
  | cons c rest =>
      have hc : c ≠ quote := fun hc => hnext (by simp [hc])
      simp [readFrom, hc]

theorem readFrom_wellQuoted {rest : List Char} (h : WellQuoted quote text)
    (hnext : rest.head? ≠ some quote) :
    readFrom quote .outside (text ++ rest) =
      (readFrom quote .outside rest).map (collapsed quote text.tail.dropLast :: ·) := by
  obtain ⟨body, hbody, rfl⟩ := h
  have hbehind : quote :: (body ++ [quote]) ++ rest = quote :: (body ++ quote :: rest) := by simp
  rw [hbehind, readFrom, if_pos rfl, readFrom_paired hbody, readFrom_closing hnext]
  simp

/-- A well quoted text is read as one identifier. -/
theorem WellQuoted.identifiers_eq (h : WellQuoted quote text) :
    identifiers quote text = some [collapsed quote text.tail.dropLast] := by
  have hnext : ([] : List Char).head? ≠ some quote := by simp
  have hread := readFrom_wellQuoted h hnext
  simpa [identifiers, readFrom] using hread

/-- Names that have the quote at both ends count as quoted, whatever is between the ends; so does a
name of one long character that is the quote itself. -/
theorem not_wellQuoted_quote :
    ¬ WellQuoted '\x60' (Identifier.quote '\x60' "\x60a\x60b\x60").toList ∧
      ¬ WellQuoted 'é' (Identifier.quote 'é' "é").toList := by
  constructor
  · intro h
    have hread := h.identifiers_eq
    exact absurd hread (by decide)
  · intro h
    have hread := h.identifiers_eq
    exact absurd hread (by decide)

end Identifier

open Identifier

/-! ## Texts with quoted names -/

/-- Characters other than the quote, and among them the quoted forms of the names in their order.
No quote follows a quoted form. -/
inductive Woven (quote : Char) : List Char → List String → Prop where
  | nil : Woven quote [] []
  | char {c : Char} {text : List Char} {names : List String} (hc : c ≠ quote)
      (h : Woven quote text names) : Woven quote (c :: text) names
  | name (name : String) {text : List Char} {names : List String}
      (hnext : text.head? ≠ some quote) (h : Woven quote text names) :
      Woven quote (quoteChars quote name.toList ++ text) (name :: names)

namespace Woven

variable {quote : Char} {text other : List Char} {names others : List String}

theorem of_not_mem (h : quote ∉ text) : Woven quote text [] := by
  induction text with
  | nil => exact .nil
  | cons c rest ih =>
      have hc : c ≠ quote := fun hc => h (by simp [hc])
      exact .char hc (ih fun hrest => h (List.mem_cons_of_mem c hrest))

theorem names_eq_nil (h : Woven quote text names) (hquote : quote ∉ text) : names = [] := by
  induction h with
  | nil => rfl
  | char hc h ih => exact ih fun hmem => hquote (List.mem_cons_of_mem _ hmem)
  | name name hnext h ih =>
      have hmem : quote ∈ quoteChars quote name.toList :=
        List.mem_of_mem_head? (head?_quoteChars quote name.toList)
      exact absurd (List.mem_append_left _ hmem) hquote

theorem quoted (quote : Char) (name : String) :
    Woven quote (Identifier.quote quote name).toList [name] := by
  have h : Woven quote (quoteChars quote name.toList ++ []) [name] := .name name (by simp) .nil
  simpa [Identifier.quote] using h

theorem append (h : Woven quote text names) (hother : Woven quote other others)
    (hedge : text.getLast? = some quote → other.head? ≠ some quote) :
    Woven quote (text ++ other) (names ++ others) := by
  induction h with
  | nil => exact hother
  | @char c text names hc h ih =>
      refine .char hc (ih fun hlast => hedge ?_)
      rw [List.getLast?_cons, hlast]
      rfl
  | @name name text names hnext h ih =>
      have hlast := getLast?_quoteChars quote name.toList
      rw [List.append_assoc]
      refine .name name ?_ (ih fun htext => hedge ?_)
      · cases text with
        | nil => exact hedge (by simpa using hlast)
        | cons c rest => exact hnext
      · rw [List.getLast?_append, htext]
        rfl

/-- Two names with a dot between them. -/
theorem compound (hdot : quote ≠ '.') (owner column : String) :
    Woven quote (Identifier.quote quote owner ++ "." ++ Identifier.quote quote column).toList
      [owner, column] := by
  have hbehind := Woven.char (Ne.symm hdot) (quoted quote column)
  have hall := (quoted quote owner).append hbehind fun _ => by simpa using Ne.symm hdot
  simpa [String.toList_append] using hall

/-- Reading gives back the names that are written, if those that count as quoted are. -/
theorem identifiers_eq (h : Woven quote text names)
    (hnames : ∀ name ∈ names, isQuoted quote name.toList = true →
      WellQuoted quote name.toList) :
    identifiers quote text = some (names.map fun name => content quote name.toList) := by
  induction h with
  | nil => rfl
  | char hc h ih =>
      rw [identifiers, readFrom, if_neg hc]
      exact ih hnames
  | name name hnext h ih =>
      obtain ⟨hname, hrest⟩ := List.forall_mem_cons.mp hnames
      have hquoted := (wellQuoted_quoteChars_iff quote name.toList).mpr hname
      have hread := ih hrest
      rw [identifiers] at hread
      rw [identifiers, readFrom_wellQuoted hquoted hnext, hread]
      rfl

end Woven

/-! ## Tokens with quoted names -/

/-- Every token is a text with quoted names, and names of functions have no quote. -/
inductive Weaves (quote : Char) : List Token → List String → Prop where
  | nil : Weaves quote [] []
  | cons {t : Token} {rest : List Token} {names others : List String}
      (ht : Woven quote t.chars names) (hfunction : t.isFunction = true → quote ∉ t.chars)
      (hrest : Weaves quote rest others) : Weaves quote (t :: rest) (names ++ others)

namespace Weaves

variable {quote : Char} {t : Token} {left right rest tokens : List Token}
  {names others : List String}

theorem word_cons {w : String} (hw : Woven quote w.toList names)
    (hrest : Weaves quote rest others) : Weaves quote (.text w :: rest) (names ++ others) :=
  .cons hw (by simp [Token.isFunction]) hrest

theorem word {w : String} (hw : Woven quote w.toList names) : Weaves quote [.text w] names := by
  simpa using word_cons hw .nil

theorem function {w : String} (hw : quote ∉ w.toList) : Weaves quote [.function w] [] := by
  have hname : Woven quote (Token.function w).chars [] := .of_not_mem hw
  simpa using cons hname (fun _ => hw) .nil

theorem append (h : Weaves quote left names) (hright : Weaves quote right others) :
    Weaves quote (left ++ right) (names ++ others) := by
  induction h with
  | nil => exact hright
  | cons ht hfunction hrest ih =>
      rw [List.append_assoc]
      exact .cons ht hfunction ih

theorem split (h : Weaves quote (left ++ right) names) :
    ∃ first second, names = first ++ second ∧ Weaves quote left first ∧
      Weaves quote right second := by
  induction left generalizing names with
  | nil => exact ⟨[], names, rfl, .nil, h⟩
  | cons t left ih =>
      cases h with
      | @cons _ _ own others ht hfunction hrest =>
          obtain ⟨first, second, rfl, hfirst, hsecond⟩ := ih hrest
          exact ⟨own ++ first, second, by simp, .cons ht hfunction hfirst, hsecond⟩

/-- Empty tokens write no names. -/
theorem words (h : Weaves quote tokens names) : Weaves quote (Token.words tokens) names := by
  induction h with
  | nil => exact .nil
  | @cons t rest names others ht hfunction hrest ih =>
      cases hempty : t.isEmpty with
      | false =>
          rw [Token.words_cons_of_not_isEmpty hempty]
          exact .cons ht hfunction ih
      | true =>
          have hchars : t.chars = [] := by simpa [Token.isEmpty] using hempty
          have hnone : names = [] := ht.names_eq_nil (by simp [hchars])
          rw [Token.words_cons_of_isEmpty hempty, hnone]
          exact ih

variable (hcloses : Token.closesTight [quote] = false) (hopens : Token.opensTight [quote] = false)

include hopens in
theorem names_eq_nil_of_isSpace (h : Weaves quote tokens names)
    (hspace : ∀ t ∈ tokens, t.isSpace = true) : names = [] := by
  induction h with
  | nil => rfl
  | @cons t rest names others ht hfunction hrest ih =>
      obtain ⟨hfirst, hothers⟩ := List.forall_mem_cons.mp hspace
      have hquote : quote ∉ t.chars := by
        intro hmem
        simp only [Token.opensTight, List.head?_cons, Bool.or_eq_false_iff] at hopens
        simp [Token.isSpace_eq_false_of_mem hmem hopens.2] at hfirst
      rw [ht.names_eq_nil hquote, ih hothers]
      rfl

include hcloses hopens in
theorem spaced (h : Weaves quote tokens names) (hne : ∀ t ∈ tokens, t.isEmpty = false) :
    Woven quote (Token.spaced tokens) names := by
  induction h with
  | nil => exact .nil
  | @cons t rest names others ht hfunction hrest ih =>
      obtain ⟨-, hothers⟩ := List.forall_mem_cons.mp hne
      have hbehind := ih hothers
      cases rest with
      | nil =>
          cases hrest
          simpa [Token.spaced] using ht
      | cons u rest =>
          have hspace : ' ' ≠ quote := by
            rintro rfl
            exact absurd hopens (by decide)
          have hhead := Token.head?_spaced_cons (hothers u (by simp)) rest
          rw [Token.spaced, List.append_assoc]
          rcases Token.gap_eq t u with hgap | hgap
          · rw [hgap]
            exact ht.append (.char hspace hbehind) fun _ => by simpa using hspace
          · rw [hgap, List.nil_append]
            -- Two quotes that touched would be read as a pair.
            refine ht.append hbehind fun hlast hfirst => ?_
            have hword : t.isFunction = false := by
              cases hname : t.isFunction with
              | false => rfl
              | true => exact absurd (List.mem_of_getLast? hlast) (hfunction hname)
            have hspaced := Token.gap_eq_space hword hlast hcloses (hhead.symm.trans hfirst) hopens
            simp [hgap] at hspaced

include hcloses hopens in
/-- Joined tokens write the names of all of them. -/
theorem join (h : Weaves quote tokens names) : Woven quote (Token.join tokens).toList names := by
  obtain ⟨lead, kept, trail, hwords, hblank, hjoin⟩ := Token.joinChars_split tokens
  have hall := h.words
  rw [hwords] at hall
  obtain ⟨front, last, rfl, hfront, hlast⟩ := hall.split
  obtain ⟨first, middle, rfl, hfirst, hmiddle⟩ := hfront.split
  obtain ⟨hblankLead, hblankTrail⟩ := List.forall_mem_append.mp hblank
  have hne : ∀ t ∈ kept, t.isEmpty = false := by
    intro t ht
    have hmem : t ∈ Token.words tokens := by simp [hwords, ht]
    simpa [Token.words] using (List.mem_filter.mp hmem).2
  have hnames : first ++ middle ++ last = middle := by
    rw [hfirst.names_eq_nil_of_isSpace hopens hblankLead,
      hlast.names_eq_nil_of_isSpace hopens hblankTrail]
    simp
  rw [hnames, Token.join, String.toList_ofList, hjoin]
  exact hmiddle.spaced hcloses hopens hne

end Weaves

/-! ## Statements with quoted names -/

namespace Piece

mutual

/-- The names in a piece, in the order in which they are written: tables with their schemas,
columns and aliases. -/
def names : Piece → List String
  | word _ | call _ | slot _ => []
  | table t => t.schema.toList ++ [t.name]
  | source t a => t.schema.toList ++ [t.name, a.name]
  | target a => [a.name]
  | column a own => [a.name, own]
  | name own => [own]
  | proposed own => [own]
  | nested body => allNames body
termination_by structural x => x

def allNames : List Piece → List String
  | [] => []
  | piece :: rest => names piece ++ allNames rest
termination_by structural x => x

end

@[simp] theorem allNames_append (left right : List Piece) :
    allNames (left ++ right) = allNames left ++ allNames right := by
  induction left with
  | nil => rfl
  | cons piece rest ih => simp [allNames, ih]

@[simp] theorem allNames_word_cons (text : String) (rest : List Piece) :
    allNames (.word text :: rest) = allNames rest := by
  simp [allNames, names]

@[simp] theorem allNames_bracketed (body : List Piece) :
    allNames (bracketed body) = allNames body := by
  simp [bracketed, allNames, names]

end Piece

namespace ShippedDialect

variable (k : ShippedDialect)

/-- The quote of the dialect is not in the text. -/
def Unmarked (text : String) : Prop :=
  k.mark ∉ text.toList

theorem spells_unmarked : k.dialect.toVocabulary.Spells k.Unmarked k.Unmarked := by
  refine k.spells ?_ ?_
  · unfold Unmarked
    cases k <;> decide
  · unfold Unmarked
    cases k <;> decide

theorem closesTight_mark : Token.closesTight [k.mark] = false := by
  cases k <;> decide

theorem opensTight_mark : Token.opensTight [k.mark] = false := by
  cases k <;> decide

theorem woven_table (t : Table) :
    Woven k.mark (k.dialect.table t).toList (t.schema.toList ++ [t.name]) := by
  rw [k.table_eq]
  cases t.schema with
  | none => exact .quoted k.mark t.name
  | some schema => exact .compound (by cases k <;> decide) schema t.name

theorem woven_name (name : String) : Woven k.mark (k.dialect.quote name).toList [name] := by
  rw [k.quote_eq]
  exact .quoted k.mark name

theorem weaves_plain {piece : Piece} (h : piece.Plain) :
    Weaves k.mark (Piece.tokens k.dialect [piece]) piece.names := by
  have hmark : ∀ w ∈ ["%s", "AS", "VALUES", "(", ")"], k.mark ∉ w.toList := by
    cases k <;> decide
  have hword {w : String} (hw : w ∈ ["%s", "AS", "VALUES", "(", ")"]) :
      Woven k.mark w.toList [] := .of_not_mem (hmark w hw)
  rw [Piece.tokens_cons, Piece.tokens_nil, List.append_nil]
  cases piece with
  | word _ | call _ | nested _ => exact h.elim
  | slot value =>
      rw [Piece.items, List.map_singleton, Item.toToken, k.placeholder_eq]
      exact .word (hword (by decide))
  | table t => exact .word (k.woven_table t)
  | source t a =>
      have hbehind := (Weaves.word (hword (w := "AS") (by decide))).append
        (.word (k.woven_name a.name))
      have hall := Weaves.word_cons (k.woven_table t) hbehind
      rw [List.append_assoc] at hall
      exact hall
  | target a => exact .word (k.woven_name a.name)
  | column a own =>
      have hcolumn : Woven k.mark (k.dialect.column a.name own).toList [a.name, own] := by
        rw [k.column_eq]
        exact .compound (by cases k <;> decide) a.name own
      exact .word hcolumn
  | name own => exact .word (k.woven_name own)
  | proposed own =>
      rw [Piece.items, k.proposed_eq, ← k.quote_eq]
      have hcolumn := (Weaves.word (k.woven_name own)).append
        (.word (hword (w := ")") (by decide)))
      have hopen := Weaves.word_cons (hword (w := "(") (by decide)) hcolumn
      exact (Weaves.function (hmark "VALUES" (by decide))).append hopen

/-- Pieces write the names in them, if the quote is neither in their words nor in the words for
functions. -/
theorem weaves_of_formed {pieces : List Piece}
    (h : Piece.Formed (fun _ => True) k.Unmarked k.Unmarked pieces) :
    Weaves k.mark (Piece.tokens k.dialect pieces) (Piece.allNames pieces) := by
  have hbrackets {body : List Piece} (hbody : Weaves k.mark (Piece.tokens k.dialect body)
      (Piece.allNames body)) : Weaves k.mark (Piece.tokens k.dialect (Piece.bracketed body))
        (Piece.allNames (Piece.bracketed body)) := by
    have hopen : Woven k.mark "(".toList [] := .of_not_mem (by cases k <;> decide)
    have hclose : Woven k.mark ")".toList [] := .of_not_mem (by cases k <;> decide)
    have hall := Weaves.word_cons hopen (hbody.append (.word hclose))
    simpa using hall
  induction h with
  | nil => exact .nil
  | @word text htext => simpa [Piece.allNames, Piece.names] using Weaves.word (.of_not_mem htext)
  | @plain piece hpiece hallowed => simpa [Piece.allNames] using k.weaves_plain hpiece
  | @call name args hname hargs ih =>
      have hall := (Weaves.function hname).append (hbrackets ih)
      simpa [Piece.tokens_cons, Piece.items, Item.toToken, Piece.allNames, Piece.names] using hall
  | bracketed h ih => exact hbrackets ih
  | nested hallowed h ih => simpa [Piece.allNames, Piece.names] using hbrackets ih
  | append hleft hright ihLeft ihRight => simpa using ihLeft.append ihRight

end ShippedDialect

/-- Where the quote is in no raw text and in no function name, the names that a query writes stand
in its text in their quoted form and nowhere else. They can be read back from the text if those
that count as quoted are well quoted. -/
theorem Query.toSql_woven {k : ShippedDialect} {q : Query} {text : String} {args : List Value}
    (h : q.toSql k.dialect = .ok (text, args))
    (hq : q.Verbatim k.Unmarked k.Unmarked) :
    ∃ pieces after,
      (Compile.query k.dialect.toVocabulary q).runFrom {} = (.ok pieces, after) ∧
      Woven k.mark text.toList (Piece.allNames pieces) ∧
      ((∀ name ∈ Piece.allNames pieces, isQuoted k.mark name.toList = true →
          WellQuoted k.mark name.toList) →
        identifiers k.mark text.toList =
          some ((Piece.allNames pieces).map fun name => content k.mark name.toList)) := by
  obtain ⟨pieces, after, hpieces, rfl, -⟩ := toSql_ok.mp h
  have hformed := Compile.query_formed k.spells_unmarked q hq hpieces
  have hwoven := (k.weaves_of_formed hformed).join k.closesTight_mark k.opensTight_mark
  exact ⟨pieces, after, hpieces, hwoven, hwoven.identifiers_eq⟩

/-- The quoted form of a name is one quoted identifier exactly if the name does not count as quoted
or is well quoted already. Where the quote is in no raw text and in no function name, the names that
a query writes stand in its text in this form and nowhere else, and reading the text gives them
back if their quoted forms are identifiers. -/
theorem Query.quotes_names (quote : Char) (name : String) :
    (WellQuoted quote (Identifier.quote quote name).toList ↔
      isQuoted quote name.toList = false ∨ WellQuoted quote name.toList) ∧
    ∀ (k : ShippedDialect) (q : Query) (text : String) (args : List Value),
      q.toSql k.dialect = .ok (text, args) → q.Verbatim k.Unmarked k.Unmarked →
      ∃ pieces after,
        (Compile.query k.dialect.toVocabulary q).runFrom {} = (.ok pieces, after) ∧
        Woven k.mark text.toList (Piece.allNames pieces) ∧
        ((∀ name ∈ Piece.allNames pieces,
            WellQuoted k.mark (Identifier.quote k.mark name).toList) →
          identifiers k.mark text.toList =
            some ((Piece.allNames pieces).map fun name => content k.mark name.toList)) := by
  refine ⟨wellQuoted_quote_iff quote name, fun k q text args h hq => ?_⟩
  obtain ⟨pieces, after, hpieces, hwoven, hread⟩ := toSql_woven h hq
  refine ⟨pieces, after, hpieces, hwoven, fun hnames => hread fun name hname hquoted => ?_⟩
  refine ((wellQuoted_quote_iff k.mark name).mp (hnames name hname)).resolve_left ?_
  simp [hquoted]

/-- The table and the columns have quotes in their names. -/
def Query.oddNames : Query where
  table := some ⟨"or\x60ders", some "my shop"⟩
  action := some (.select [.named "id", .function "max" [.named "we\x60ird"]])
  filter := some (.compare (.named "\x60") .gt (.literal (.int 100)))

/-- The names that the query writes, from left to right. -/
def Query.writtenOddNames : List String :=
  ["a", "id", "a", "we\x60ird", "my shop", "or\x60ders", "a", "a", "\x60"]

/-- Quotes within a name are read as part of it, and so is a name that is a quote. -/
theorem Query.quotes_names_oddNames :
    ∃ text args,
      oddNames.toSql ShippedDialect.mysql.dialect = .ok (text, args) ∧
      oddNames.Verbatim ShippedDialect.mysql.Unmarked ShippedDialect.mysql.Unmarked ∧
      identifiers '\x60' text.toList = some (writtenOddNames.map String.toList) := by
  have hfunction : ShippedDialect.mysql.Unmarked "max" := by
    unfold ShippedDialect.Unmarked
    decide
  have hq : oddNames.Verbatim ShippedDialect.mysql.Unmarked ShippedDialect.mysql.Unmarked := by
    simp [oddNames, Query.Verbatim, Condition.OptionVerbatim, Condition.Verbatim,
      Operand.Verbatim, Action.Verbatim, Field.AllVerbatim, Field.Verbatim, hfunction]
  obtain ⟨text, args, hsql⟩ :
      ∃ text args, oddNames.toSql ShippedDialect.mysql.dialect = .ok (text, args) := ⟨_, _, rfl⟩
  obtain ⟨pieces, after, hpieces, -, hread⟩ :=
    (Query.quotes_names '\x60' "users").2 .mysql oddNames text args hsql hq
  have hnames : Piece.allNames pieces = writtenOddNames := by
    have hrun : (oddNames.lower ShippedDialect.mysql.dialect.toVocabulary {}).1.map
        Piece.allNames = .ok writtenOddNames := rfl
    rw [Query.lower, hpieces] at hrun
    exact Except.ok.inj hrun
  have hquoted : ∀ name ∈ writtenOddNames, isQuoted '\x60' name.toList = false := by decide
  rw [hnames] at hread
  refine ⟨text, args, hsql, hq, (hread fun name hname => ?_).trans (by decide)⟩
  exact (wellQuoted_quote_iff _ name).mpr (.inl (hquoted name hname))

end BoundSql

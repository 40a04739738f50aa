import BoundSql.Proofs.Binding
import BoundSql.Proofs.Quoting
import Mathlib

/-! # Markers in the text of a statement

The shipped dialects mark the place of a bound value with a percent sign and an s. A text may have
such markers in it that no value is bound to. -/

namespace BoundSql

namespace Text

/-- How many markers are in a text. -/
def markers : List Char → Nat
  | [] => 0
  | c :: rest => (if c = '%' ∧ rest.head? = some 's' then 1 else 0) + markers rest

theorem markers_cons_of_ne {c : Char} (hc : c ≠ '%') (rest : List Char) :
    markers (c :: rest) = markers rest := by
  simp [markers, hc]

/-- Texts have the markers of both where no marker comes about between them. -/
theorem markers_append {left right : List Char}
    (h : left.getLast? = some '%' → right.head? ≠ some 's') :
    markers (left ++ right) = markers left + markers right := by
  induction left with
  | nil => simp [markers]
  | cons c rest ih =>
      cases rest with
      | nil =>
          have hnone : ¬ (c = '%' ∧ right.head? = some 's') := by
            rintro ⟨rfl, hright⟩
            exact h rfl hright
          simp [markers, hnone]
      | cons d rest =>
          have hrest := ih (by simpa using h)
          have hhead : (d :: rest ++ right).head? = (d :: rest).head? := rfl
          rw [List.cons_append, markers, hrest, hhead, ← Nat.add_assoc]
          rfl

theorem markers_eq_zero_iff {text : List Char} :
    markers text = 0 ↔ ¬ ['%', 's'] <:+: text := by
  induction text with
  | nil => simp [markers]
  | cons c rest ih =>
      rw [List.infix_cons_iff, not_or, ← ih, markers]
      cases rest with
      | nil => simp [markers]
      | cons d rest => simp [List.cons_prefix_cons, eq_comm]

/-- A text without percent signs has no markers. -/
theorem markers_eq_zero_of_not_mem {text : List Char} (h : '%' ∉ text) : markers text = 0 :=
  markers_eq_zero_iff.mpr fun hmarker => h (hmarker.subset (by simp))

end Text

open Text

/-! ## Markers in identifiers -/

namespace Identifier

variable {quote : Char}

theorem head?_doubled (quote : Char) (name : List Char) :
    (doubled quote name).head? = name.head? := by
  cases name with
  | nil => rfl
  | cons c rest => by_cases hc : c = quote <;> simp [doubled, hc]

theorem markers_doubled (hpercent : quote ≠ '%') (name : List Char) :
    markers (doubled quote name) = markers name := by
  induction name with
  | nil => rfl
  | cons c rest ih =>
      by_cases hc : c = quote
      · subst hc
        have hdoubled : doubled c (c :: rest) = c :: c :: doubled c rest := by simp [doubled]
        rw [hdoubled, markers_cons_of_ne hpercent, markers_cons_of_ne hpercent,
          markers_cons_of_ne hpercent, ih]
      · have hdoubled : doubled quote (c :: rest) = c :: doubled quote rest := by
          simp [doubled, hc]
        rw [hdoubled, markers, markers, head?_doubled, ih]

/-- Quoting makes no markers and hides none. -/
theorem markers_quote (hpercent : quote ≠ '%') (hs : quote ≠ 's') (name : String) :
    markers (Identifier.quote quote name).toList = markers name.toList := by
  rw [Identifier.quote, String.toList_ofList]
  cases h : isQuoted quote name.toList with
  | true => rw [quoteChars_of_isQuoted h]
  | false =>
      have hclose : markers (doubled quote name.toList ++ [quote]) = markers name.toList := by
        rw [markers_append fun _ => by simpa using hs, markers_doubled hpercent,
          markers_cons_of_ne hpercent]
        rfl
      rw [quoteChars_of_not_isQuoted h, markers_cons_of_ne hpercent, hclose]

end Identifier

/-! ## Markers in tokens -/

/-- Tokens with so many markers, where every function stands before a bracket. -/
structure Marked (tokens : List Token) (count : Nat) : Prop where
  opened : tokens.IsChain fun t u => t.isFunction = true → u = .text "("
  closed : ∀ t ∈ tokens.getLast?, t.isFunction = false
  count_eq : (tokens.map fun t => markers t.chars).sum = count

namespace Marked

variable {left right rest tokens : List Token} {n m : Nat}

theorem nil : Marked [] 0 where
  opened := .nil
  closed := by simp
  count_eq := rfl

theorem word {w : String} (h : markers w.toList = n) : Marked [.text w] n where
  opened := .singleton _
  closed := by simp [Token.isFunction]
  count_eq := by simpa [Token.chars, Token.spelling] using h

theorem append (h : Marked left n) (hright : Marked right m) : Marked (left ++ right) (n + m) where
  opened := by
    refine List.isChain_append.mpr ⟨h.opened, hright.opened, fun t ht u _ hfunction => ?_⟩
    simp [h.closed t ht] at hfunction
  closed := by
    intro t ht
    rw [List.getLast?_append] at ht
    cases hlast : right.getLast? with
    | none => exact h.closed t (by simpa [hlast] using ht)
    | some u => exact hright.closed t (by simpa [hlast] using ht)
  count_eq := by rw [List.map_append, List.sum_append, h.count_eq, hright.count_eq]

theorem call (name : String) (h : Marked (.text "(" :: rest) n) :
    Marked (.function name :: .text "(" :: rest) (markers name.toList + n) where
  opened := .cons_cons (fun _ => rfl) h.opened
  closed := by simpa using h.closed
  count_eq := by
    rw [List.map_cons, List.sum_cons, h.count_eq]
    rfl

/-- Empty tokens do not part a function from its bracket. -/
theorem opened_words (h : tokens.IsChain fun t u => t.isFunction = true → u = .text "(") :
    (Token.words tokens).IsChain fun t u => t.isFunction = true → u = .text "(" := by
  induction tokens with
  | nil => exact .nil
  | cons t rest ih =>
      obtain ⟨hnext, hrest⟩ := List.isChain_cons.mp h
      cases hempty : t.isEmpty with
      | true =>
          rw [Token.words_cons_of_isEmpty hempty]
          exact ih hrest
      | false =>
          rw [Token.words_cons_of_not_isEmpty hempty]
          refine List.isChain_cons.mpr ⟨fun u hu hfunction => ?_, ih hrest⟩
          cases rest with
          | nil => simp [Token.words] at hu
          | cons next rest =>
              obtain rfl := hnext next rfl hfunction
              have hbracket : (Token.text "(").isEmpty = false := by decide
              rw [Token.words_cons_of_not_isEmpty hbracket] at hu
              simpa using hu.symm

theorem sum_words (tokens : List Token) :
    ((Token.words tokens).map fun t => markers t.chars).sum =
      (tokens.map fun t => markers t.chars).sum := by
  induction tokens with
  | nil => rfl
  | cons t rest ih =>
      cases hempty : t.isEmpty with
      | true =>
          have hchars : t.chars = [] := by simpa [Token.isEmpty] using hempty
          rw [Token.words_cons_of_isEmpty hempty, ih]
          simp [hchars, markers]
      | false =>
          rw [Token.words_cons_of_not_isEmpty hempty, List.map_cons, List.map_cons, List.sum_cons,
            List.sum_cons, ih]

theorem sum_eq_zero_of_isSpace (h : ∀ t ∈ tokens, t.isSpace = true) :
    (tokens.map fun t => markers t.chars).sum = 0 := by
  induction tokens with
  | nil => rfl
  | cons t rest ih =>
      obtain ⟨ht, hrest⟩ := List.forall_mem_cons.mp h
      have hnone : markers t.chars = 0 := by
        refine markers_eq_zero_of_not_mem fun hpercent => ?_
        have hspace := Token.isSpace_eq_false_of_mem hpercent (by decide)
        simp [ht] at hspace
      rw [List.map_cons, List.sum_cons, hnone, ih hrest]

theorem markers_spaced (hne : ∀ t ∈ tokens, t.isEmpty = false)
    (h : tokens.IsChain fun t u => t.isFunction = true → u = .text "(") :
    markers (Token.spaced tokens) = (tokens.map fun t => markers t.chars).sum := by
  induction tokens with
  | nil => rfl
  | cons t rest ih =>
      obtain ⟨-, hothers⟩ := List.forall_mem_cons.mp hne
      obtain ⟨hnext, hrest⟩ := List.isChain_cons.mp h
      have hbehind := ih hothers hrest
      cases rest with
      | nil => simp [Token.spaced]
      | cons u rest =>
          have hhead := Token.head?_spaced_cons (hothers u (by simp)) rest
          rw [Token.spaced, List.append_assoc, List.map_cons, List.sum_cons, ← hbehind]
          rcases Token.gap_eq t u with hgap | hgap
          · rw [hgap, markers_append (by simp), List.singleton_append,
              markers_cons_of_ne (by decide)]
          · rw [hgap, List.nil_append]
            -- A percent sign and an s that touched would be a marker of neither token.
            refine markers_append fun hlast hfirst => ?_
            rw [hhead] at hfirst
            cases hfunction : t.isFunction with
            | true =>
                obtain rfl := hnext u rfl hfunction
                simp [Token.chars, Token.spelling] at hfirst
            | false =>
                have hspaced := Token.gap_eq_space hfunction hlast (by decide) hfirst (by decide)
                simp [hgap] at hspaced

/-- Joined tokens have the markers of all of them. -/
theorem join (h : Marked tokens n) : markers (Token.join tokens).toList = n := by
  obtain ⟨lead, kept, trail, hwords, hblank, hjoin⟩ := Token.joinChars_split tokens
  have hsum := sum_words tokens
  have hchain := opened_words h.opened
  obtain ⟨hblankLead, hblankTrail⟩ := List.forall_mem_append.mp hblank
  rw [hwords] at hsum hchain
  simp only [List.map_append, List.sum_append, sum_eq_zero_of_isSpace hblankLead,
    sum_eq_zero_of_isSpace hblankTrail, h.count_eq, Nat.zero_add, Nat.add_zero] at hsum
  have hkept := hchain.left_of_append.right_of_append
  have hne : ∀ t ∈ kept, t.isEmpty = false := by
    intro t ht
    have hmem : t ∈ Token.words tokens := by simp [hwords, ht]
    simpa [Token.words] using (List.mem_filter.mp hmem).2
  rw [Token.join, String.toList_ofList, hjoin, markers_spaced hne hkept, hsum]

end Marked

/-! ## Markers in statements -/

/-- How many markers are in the names all together. -/
def nameMarkers (names : List String) : Nat :=
  (names.map fun name => markers name.toList).sum

theorem nameMarkers_append (left right : List String) :
    nameMarkers (left ++ right) = nameMarkers left + nameMarkers right := by
  simp [nameMarkers]

/-- No marker is in the text. -/
def Markerless (text : String) : Prop :=
  ¬ "%s".toList <:+: text.toList

theorem nameMarkers_eq_zero_iff {names : List String} :
    nameMarkers names = 0 ↔ ∀ name ∈ names, Markerless name := by
  induction names with
  | nil => simp [nameMarkers]
  | cons name rest ih =>
      have hcons : nameMarkers (name :: rest) = markers name.toList + nameMarkers rest := by
        simp [nameMarkers]
      rw [hcons, Nat.add_eq_zero_iff, ih, List.forall_mem_cons, markers_eq_zero_iff]
      rfl

theorem Markerless.markers_eq_zero {text : String} (h : Markerless text) :
    markers text.toList = 0 :=
  markers_eq_zero_iff.mpr h

namespace ShippedDialect

variable (k : ShippedDialect)

theorem markers_quote (name : String) :
    markers (k.dialect.quote name).toList = markers name.toList := by
  rw [k.quote_eq]
  exact Identifier.markers_quote (by cases k <;> decide) (by cases k <;> decide) name

/-- A dot makes no marker between two names. -/
theorem markers_compound (owner column : String) :
    markers (k.dialect.quote owner ++ "." ++ k.dialect.quote column).toList =
      markers owner.toList + markers column.toList := by
  rw [String.toList_append, String.toList_append, List.append_assoc, markers_append (by simp),
    markers_append (by simp), k.markers_quote, k.markers_quote]
  simp [markers]

theorem markers_table (t : Table) :
    markers (k.dialect.table t).toList = nameMarkers (t.schema.toList ++ [t.name]) := by
  rw [k.table_eq]
  simp only [← k.quote_eq]
  cases t.schema with
  | none => simp [nameMarkers, k.markers_quote]
  | some schema =>
      rw [k.markers_compound]
      simp [nameMarkers]

theorem marked_plain {piece : Piece} (h : piece.Plain) :
    Marked (Piece.tokens k.dialect [piece])
      ((Piece.args k.dialect [piece]).length + nameMarkers piece.names) := by
  have hname (name : String) : Marked [.text (k.dialect.quote name)] (nameMarkers [name]) :=
    .word (by simp [nameMarkers, k.markers_quote])
  have htokens : Piece.tokens k.dialect [piece] =
      (piece.items k.dialect).map (Item.toToken k.dialect.placeholder) := by
    simp [Piece.tokens_cons]
  have hargs : Piece.args k.dialect [piece] = (piece.items k.dialect).filterMap Item.value? := by
    simp [Piece.args_cons]
  rw [htokens, hargs]
  cases piece with
  | word _ | call _ | nested _ => exact h.elim
  | slot value =>
      rw [Piece.items, List.map_singleton, Item.toToken, k.placeholder_eq]
      exact .word rfl
  | table t =>
      have hall := Marked.word (k.markers_table t)
      simpa [Piece.items, Item.toToken, List.filterMap_cons, Item.value?, Piece.names] using hall
  | source t a =>
      have has : Marked [.text "AS"] 0 := .word (by decide)
      have hall := (Marked.word (k.markers_table t)).append (has.append (hname a.name))
      rw [Nat.zero_add, ← nameMarkers_append, List.append_assoc] at hall
      simpa [Piece.items, Item.toToken, List.filterMap_cons, Item.value?, Piece.names] using hall
  | target a =>
      simpa [Piece.items, Item.toToken, List.filterMap_cons, Item.value?, Piece.names] using
        hname a.name
  | column a own =>
      have hcolumn : markers (k.dialect.column a.name own).toList = nameMarkers [a.name, own] := by
        rw [k.column_eq, ← k.quote_eq, ← k.quote_eq, k.markers_compound]
        simp [nameMarkers]
      simpa [Piece.items, Item.toToken, List.filterMap_cons, Item.value?, Piece.names] using
        Marked.word hcolumn
  | name own =>
      simpa [Piece.items, Item.toToken, List.filterMap_cons, Item.value?, Piece.names] using
        hname own
  | proposed own =>
      have hopen : Marked [.text "("] 0 := .word (by decide)
      have hclose : Marked [.text ")"] 0 := .word (by decide)
      have hvalue := Marked.call "VALUES" (hopen.append ((hname own).append hclose))
      have hnone : markers "VALUES".toList = 0 := by decide
      rw [hnone, Nat.zero_add, Nat.zero_add, Nat.add_zero] at hvalue
      rw [Piece.items, k.proposed_eq, ← k.quote_eq]
      simpa [Item.toToken, List.filterMap_cons, Item.value?, Piece.names] using hvalue

theorem marked_bracketed {body : List Piece}
    (h : Marked (Piece.tokens k.dialect body)
      ((Piece.args k.dialect body).length + nameMarkers (Piece.allNames body))) :
    Marked (Piece.tokens k.dialect (Piece.bracketed body))
      ((Piece.args k.dialect (Piece.bracketed body)).length +
        nameMarkers (Piece.allNames (Piece.bracketed body))) := by
  have hopen : Marked [.text "("] 0 := .word (by decide)
  have hclose : Marked [.text ")"] 0 := .word (by decide)
  have hall := hopen.append (h.append hclose)
  simpa using hall

/-- Pieces have the markers of the values that they bind and those in their names, if no marker is
in their words or in the words for functions. -/
theorem marked_of_formed {pieces : List Piece}
    (h : Piece.Formed (fun _ => True) Markerless Markerless pieces) :
    Marked (Piece.tokens k.dialect pieces)
      ((Piece.args k.dialect pieces).length + nameMarkers (Piece.allNames pieces)) := by
  induction h with
  | nil => exact .nil
  | word htext =>
      have hword := Marked.word htext.markers_eq_zero
      simpa [Piece.allNames, Piece.names, nameMarkers] using hword
  | plain hpiece hallowed => simpa [Piece.allNames] using k.marked_plain hpiece
  | @call name args hname hargs ih =>
      have hbrackets := k.marked_bracketed ih
      rw [Piece.tokens_bracketed] at hbrackets
      have hall := Marked.call name hbrackets
      rw [hname.markers_eq_zero, Nat.zero_add] at hall
      simpa [Piece.tokens_cons, Piece.args_cons, Piece.items, Item.toToken, List.filterMap_cons,
        Item.value?, Piece.allNames, Piece.names] using hall
  | bracketed h ih => exact k.marked_bracketed ih
  | nested hallowed h ih =>
      simpa [Piece.allNames, Piece.names] using k.marked_bracketed ih
  | @append left right hleft hright ihLeft ihRight =>
      have hall := ihLeft.append ihRight
      rw [Piece.tokens_append, Piece.args_append, Piece.allNames_append, nameMarkers_append,
        List.length_append]
      rwa [Nat.add_add_add_comm] at hall

theorem spells_markerless : k.dialect.toVocabulary.Spells Markerless Markerless := by
  have hwords : ∀ w ∈ words, markers w.toList = 0 := by decide
  have hfunctions : ∀ entry ∈ functionWords, markers entry.2.toList = 0 := by decide
  refine k.spells (fun w hw => ?_) (fun entry hentry => ?_)
  · exact markers_eq_zero_iff.mp (hwords w hw)
  · exact markers_eq_zero_iff.mp (hfunctions entry hentry)

end ShippedDialect

/-- Where no marker is in a raw text or in a function name, the text of a query has one marker for
every argument, and those in the names that it writes. -/
theorem Query.markers_toSql {k : ShippedDialect} {q : Query} {text : String} {args : List Value}
    (h : q.toSql k.dialect = .ok (text, args)) (hq : q.Verbatim Markerless Markerless) :
    ∃ pieces after,
      (Compile.query k.dialect.toVocabulary q).runFrom {} = (.ok pieces, after) ∧
      markers text.toList = args.length + nameMarkers (Piece.allNames pieces) ∧
      (markers text.toList = args.length ↔ ∀ name ∈ Piece.allNames pieces, Markerless name) := by
  obtain ⟨pieces, after, hpieces, rfl, rfl⟩ := toSql_ok.mp h
  have hformed := Compile.query_formed k.spells_markerless q hq hpieces
  have hcount := (k.marked_of_formed hformed).join
  refine ⟨pieces, after, hpieces, hcount, ?_⟩
  rw [hcount, Nat.add_eq_left]
  exact nameMarkers_eq_zero_iff

/-- In the statement that marks buyers every marker has its argument. -/
theorem Query.markers_toSql_markBuyers :
    ∃ text args, markBuyers.toSql ShippedDialect.mysql.dialect = .ok (text, args) ∧
      markers text.toList = args.length := by
  obtain ⟨text, args, h⟩ :
      ∃ text args, markBuyers.toSql ShippedDialect.mysql.dialect = .ok (text, args) :=
    ⟨_, _, rfl⟩
  have hadult : Specifier.parse "age__gte" = .ok (.named "age", .gte) := rfl
  have hlarge : Specifier.parse "total__gt" = .ok (.named "total", .gt) := rfl
  have hq : markBuyers.Verbatim Markerless Markerless := by
    simp [markBuyers, Query.Verbatim, Condition.OptionVerbatim, Condition.Verbatim,
      Condition.AllVerbatim, Operand.Verbatim, Action.Verbatim, Field.AllVerbatim,
      Field.Verbatim, hadult, hlarge]
  obtain ⟨pieces, after, hpieces, -, hcount⟩ := Query.markers_toSql h hq
  have hnames : ∀ name ∈ Piece.allNames pieces, Markerless name := by
    cases hpieces
    exact nameMarkers_eq_zero_iff.mp (by decide)
  exact ⟨text, args, h, hcount.mpr hnames⟩

/-- The shares of some users, in a column whose name has a marker in it. -/
def Query.shares : Query where
  table := some ⟨"users", none⟩
  action := some (.select [.named "%share"])
  filter := some (.group .and [.compare (.named "id") .gt (.literal (.int 10))])

/-- One of the two markers in the text has no argument. -/
theorem Query.not_markers_toSql_shares :
    shares.Verbatim Markerless Markerless ∧
      ∃ text args, shares.toSql ShippedDialect.mysql.dialect = .ok (text, args) ∧
        markers text.toList = 2 ∧ args.length = 1 := by
  constructor
  · simp [shares, Query.Verbatim, Condition.OptionVerbatim, Condition.Verbatim,
      Condition.AllVerbatim, Operand.Verbatim, Action.Verbatim, Field.AllVerbatim, Field.Verbatim]
  · exact ⟨_, _, rfl, by decide, rfl⟩

end BoundSql

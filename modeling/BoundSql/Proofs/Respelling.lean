import BoundSql.Proofs.Lowering.Parametric
import BoundSql.Proofs.Lowering.Shipped
import BoundSql.Proofs.Texts

/-! # The shipped dialects differ in spelling

The dialects of the library have the same words but for the equality operator, and they write names
between different quote characters. A query fails in both with the same error, or it compiles in
both to tokens that are alike: the one statement is the other one spelled differently. -/

namespace BoundSql

/-! ## Another equality operator -/

/-- The second compile may write `=` where the first one writes `<=>`. -/
def Likeness.respelled : Likeness :=
  { Likeness.same with
    words := fun word word' => word' = word ∨ word = "<=>" ∧ word' = "="
    words_refl := fun _ => .inl rfl }

theorem ShippedDialect.mysql_alike_ansi :
    mysql.dialect.toVocabulary.Alike .respelled ansi.dialect.toVocabulary :=
  { Vocabulary.Alike.refl .respelled ansi.dialect.toVocabulary with
    operator := fun op => by
      cases op with
      | eq => exact .ok (.inr ⟨rfl, rfl⟩)
      | other key => exact .error _
      | _ => exact .ok (.inl rfl) }

namespace Piece.Alike

open ShippedDialect

variable {pieces other : List Piece}

/-- The dialects bind the same values, and they write tokens of the same kinds. -/
theorem args_eq (h : Alike .respelled pieces other) :
    args mysql.dialect pieces = args ansi.dialect other := by
  induction h with
  | nil => rfl
  | slot h => rw [args_slot_cons, args_slot_cons, args_nil, args_nil, h]
  | word h | call h | target h | source t h | column h own | table t | name own | proposed own =>
      simp [args_cons, items, List.filterMap_cons, Function.comp_def, Item.value?]
  | nested h ih => rw [args_nested_cons, args_nested_cons, ih, args_nil, args_nil]
  | append hleft hright ihLeft ihRight => rw [args_append, args_append, ihLeft, ihRight]

theorem kinds_eq (h : Alike .respelled pieces other) :
    (tokens mysql.dialect pieces).map Token.isFunction =
      (tokens ansi.dialect other).map Token.isFunction := by
  induction h with
  | nil => rfl
  | word h | call h | slot h | target h | source t h | column h own | table t | name own
  | proposed own => simp [tokens_cons, items, Item.toToken, Token.isFunction, proposed_eq]
  | nested h ih => simp [ih, Token.isFunction]
  | append hleft hright ihLeft ihRight =>
      rw [tokens_append, tokens_append, List.map_append, List.map_append, ihLeft, ihRight]

end Piece.Alike

/-! ## The other spelling -/

/-- The character in the standard spelling: double quotes stand for backticks. -/
def respelledChar (c : Char) : Char :=
  if c = '\x60' then '"' else c

/-- The text in the standard spelling: double quotes stand for backticks, and `=` for `<=>`. -/
def respelled (text : String) : String :=
  if text = "<=>" then "=" else String.ofList (text.toList.map respelledChar)

/-- The token in the standard spelling. -/
def Token.respelled : Token → Token
  | text word => text (BoundSql.respelled word)
  | function name => function (BoundSql.respelled name)

/-- The text has nothing in it that the shipped dialects spell differently. -/
def Portable (text : String) : Prop :=
  '\x60' ∉ text.toList ∧ '"' ∉ text.toList ∧ ¬ "<=>".toList <:+: text.toList

instance : DecidablePred Portable := fun _ => inferInstanceAs (Decidable (_ ∧ _))

theorem portable_passesToParts : PassesToParts Portable := fun hpart h =>
  ⟨fun hmem => h.1 (hpart.subset hmem), fun hmem => h.2.1 (hpart.subset hmem),
    fun hoccurs => h.2.2 (hoccurs.trans hpart)⟩

theorem map_respelledChar {cs : List Char} (h : '\x60' ∉ cs) : cs.map respelledChar = cs := by
  calc cs.map respelledChar
      = cs.map id := List.map_congr_left fun c hc => if_neg fun heq : c = '\x60' => h (heq ▸ hc)
    _ = cs := List.map_id cs

theorem Portable.respelled_eq {text : String} (h : Portable text) : respelled text = text := by
  have hne : text ≠ "<=>" := by
    rintro rfl
    exact h.2.2 List.infix_rfl
  rw [respelled, if_neg hne, map_respelledChar h.1, String.ofList_toList]

/-- A text with a backtick in it is respelled character by character. -/
theorem toList_respelled {text : String} (h : '\x60' ∈ text.toList) :
    (respelled text).toList = text.toList.map respelledChar := by
  have hne : text ≠ "<=>" := by
    rintro rfl
    revert h
    decide
  rw [respelled, if_neg hne, String.toList_ofList]

/-! ## Names in the other spelling -/

theorem Identifier.quote_of_not_mem {mark : Char} {name : String} (h : mark ∉ name.toList) :
    Identifier.quote mark name = String.ofList (mark :: (name.toList ++ [mark])) := by
  have hquoted : isQuoted mark name.toList = false := by
    refine Bool.eq_false_iff.mpr fun hquoted => ?_
    simp only [isQuoted, Bool.and_eq_true, beq_iff_eq] at hquoted
    exact h (List.mem_of_mem_head? hquoted.1.2)
  have hdoubled : doubled mark name.toList = name.toList := by
    calc doubled mark name.toList
        = name.toList.flatMap fun c => [c] :=
          List.flatMap_congr fun c hc => if_neg fun heq : c = mark => h (heq ▸ hc)
      _ = name.toList := List.flatMap_singleton' name.toList
  rw [Identifier.quote, quoteChars, hquoted, hdoubled]
  rfl

namespace Portable

variable {name owner : String}

theorem toList_quote_mysql (h : Portable name) :
    (Identifier.quote '\x60' name).toList = '\x60' :: (name.toList ++ ['\x60']) := by
  rw [Identifier.quote_of_not_mem h.1, String.toList_ofList]

theorem toList_quote_ansi (h : Portable name) :
    (Identifier.quote '"' name).toList =
      (Identifier.quote '\x60' name).toList.map respelledChar := by
  rw [h.toList_quote_mysql, Identifier.quote_of_not_mem h.2.1, String.toList_ofList, List.map_cons,
    List.map_append, map_respelledChar h.1]
  rfl

theorem respelled_quote (h : Portable name) :
    respelled (Identifier.quote '\x60' name) = Identifier.quote '"' name := by
  rw [← String.toList_inj, toList_respelled (by simp [h.toList_quote_mysql]), h.toList_quote_ansi]

/-- Two names with a dot between them. -/
theorem respelled_compound (howner : Portable owner) (hname : Portable name) :
    respelled (Identifier.quote '\x60' owner ++ "." ++ Identifier.quote '\x60' name) =
      Identifier.quote '"' owner ++ "." ++ Identifier.quote '"' name := by
  rw [← String.toList_inj, toList_respelled (by simp [howner.toList_quote_mysql])]
  simp only [String.toList_append, List.map_append, howner.toList_quote_ansi,
    hname.toList_quote_ansi]
  rfl

end Portable

theorem Alias.portable_name (a : Alias) : Portable a.name := by
  have hletters : ∀ n : Fin 26, Portable (String.ofList [Char.ofNat ('a'.toNat + n)]) := by decide
  exact hletters ⟨a.position % 26, Nat.mod_lt _ (by decide)⟩

open ShippedDialect in
theorem respelled_table {t : Table} (h : ∀ text ∈ t.texts, Portable text) :
    respelled (mysql.dialect.table t) = ansi.dialect.table t := by
  obtain ⟨name, schema⟩ := t
  have hname := h name List.mem_cons_self
  rw [table_eq, table_eq]
  cases schema with
  | none => exact hname.respelled_quote
  | some schema => exact (h schema (by simp [Table.texts])).respelled_compound hname

open ShippedDialect Piece in
/-- Where no text needs care, the tokens on the right are those on the left in the standard
spelling. -/
theorem Piece.Alike.respelled_eq {pieces other : List Piece} (h : Alike .respelled pieces other)
    (hp : Everywhere (fun piece => ∀ text ∈ piece.texts, Portable text) other) :
    (tokens mysql.dialect pieces).map Token.respelled = tokens ansi.dialect other := by
  have hwords : respelled "(" = "(" ∧ respelled ")" = ")" ∧ respelled "AS" = "AS" ∧
      respelled "VALUES" = "VALUES" ∧ respelled "%s" = "%s" ∧ respelled "<=>" = "=" := by decide
  have hsingle {piece : Piece}
      (hp : Everywhere (fun piece => ∀ text ∈ piece.texts, Portable text) [piece]) :
      ∀ text ∈ piece.texts, Portable text :=
    hp [piece] List.mem_cons_self piece List.mem_cons_self
  induction h with
  | nil => rfl
  | @word text text' h =>
      have htext := (hsingle hp text' List.mem_cons_self).respelled_eq
      obtain rfl | ⟨rfl, rfl⟩ := h
      · simp [Token.respelled, htext]
      · simp [Token.respelled, hwords]
  | @call name name' h =>
      have hname := (hsingle hp name' List.mem_cons_self).respelled_eq
      obtain rfl | ⟨rfl, rfl⟩ := h
      · simp [tokens_cons, items, Item.toToken, Token.respelled, hname]
      · simp [tokens_cons, items, Item.toToken, Token.respelled, hwords]
  | slot h => simp [tokens_cons, items, Item.toToken, Token.respelled, placeholder_eq, hwords]
  | table t =>
      simp [tokens_cons, items, Item.toToken, Token.respelled, respelled_table (hsingle hp)]
  | @source t a b h =>
      obtain rfl : a = b := h
      have ha := a.portable_name.respelled_quote
      have ht := respelled_table (hsingle hp)
      simp [tokens_cons, items, Item.toToken, Token.respelled, ht, quote_eq, mark, ha, hwords]
  | @target a b h =>
      obtain rfl : a = b := h
      have ha := a.portable_name.respelled_quote
      simp [tokens_cons, items, Item.toToken, Token.respelled, quote_eq, mark, ha]
  | @column a b h own =>
      obtain rfl : a = b := h
      have hown := a.portable_name.respelled_compound (hsingle hp own List.mem_cons_self)
      simp [tokens_cons, items, Item.toToken, Token.respelled, column_eq, mark, hown]
  | name own =>
      have hown := (hsingle hp own List.mem_cons_self).respelled_quote
      simp [tokens_cons, items, Item.toToken, Token.respelled, quote_eq, mark, hown]
  | proposed own =>
      have hown := (hsingle hp own List.mem_cons_self).respelled_quote
      simp [tokens_cons, items, Item.toToken, Token.respelled, proposed_eq, mark, hown, hwords]
  | nested h ih =>
      obtain ⟨-, hp⟩ := everywhere_nested.mp hp
      simp [ih hp, Token.respelled, hwords]
  | append hleft hright ihLeft ihRight =>
      obtain ⟨hleft, hright⟩ := everywhere_append.mp hp
      rw [tokens_append, tokens_append, List.map_append, ihLeft hleft, ihRight hright]

theorem Portable.of_not_mem {text : String}
    (h : '\x60' ∉ text.toList ∧ '"' ∉ text.toList ∧ '<' ∉ text.toList) : Portable text :=
  ⟨h.1, h.2.1, fun hoccurs => h.2.2 (hoccurs.subset (by decide))⟩

/-- The words of the standard dialect have nothing in them that needs care. -/
theorem ShippedDialect.ansi_spells : ansi.dialect.toVocabulary.Spells Portable Portable where
  keyword w hw := by
    have hkeywords : ∀ w ∈ Statement.keywords,
        '\x60' ∉ w.toList ∧ '"' ∉ w.toList ∧ '<' ∉ w.toList := by decide
    exact .of_not_mem (hkeywords w hw)
  operator {op w} h := by
    cases op with
    | neq | lt | lte =>
        cases h
        decide
    | other key => cases h
    | _ =>
        cases h
        exact .of_not_mem (by decide)
  logical op := .of_not_mem (by cases op <;> decide)
  joinKind {kind w} h := by cases kind <;> cases h <;> exact .of_not_mem (by decide)
  sortOrder order := .of_not_mem (by cases order <;> decide)
  null := .of_not_mem (by decide)
  insertMode {mode w} h := by cases mode <;> cases h <;> exact .of_not_mem (by decide)
  upsert := .of_not_mem (by decide)
  function {name w} hname h := by
    cases h
    have hwords : ∀ entry ∈ functionWords,
        '\x60' ∉ entry.2.toList ∧ '"' ∉ entry.2.toList ∧ '<' ∉ entry.2.toList := by decide
    exact Vocabulary.functionWord_of (fun entry hentry => .of_not_mem (hwords entry hentry)) hname

/-! ## The two statements -/

/-- The clause on the right is the one on the left as the other dialect spells it: it has the same
arguments and tokens of the same kinds. If no text of the query needs care, its tokens are those on
the left with double quotes for backticks and with `=` for `<=>`. -/
structure Clause.Respelled (q : Query) (c other : Clause) : Prop where
  args_eq : other.args = c.args
  kinds_eq : other.tokens.map Token.isFunction = c.tokens.map Token.isFunction
  tokens_eq : (∀ text ∈ q.texts, Portable text) → other.tokens = c.tokens.map Token.respelled

/-- From every position of the supply a query fails in both shipped dialects with the same error, or
the statement of the standard dialect is that of MySQL respelled. The supply ends at the same
position. -/
theorem Query.compile_respelled (q : Query) (supply : AliasSupply) :
    (q.compile ShippedDialect.mysql.dialect supply).2 =
      (q.compile ShippedDialect.ansi.dialect supply).2 ∧
    Agrees (Clause.Respelled q) (q.compile ShippedDialect.mysql.dialect supply).1
      (q.compile ShippedDialect.ansi.dialect supply).1 := by
  have halike : q.Alike Likeness.respelled.values q := .refl (fun _ => rfl) q
  obtain ⟨hafter, hagrees⟩ :=
    Compile.query_alike ShippedDialect.mysql_alike_ansi q halike supply _ rfl
  rw [compile, compile, lower, lower]
  rcases hmysql : (Compile.query ShippedDialect.mysql.dialect.toVocabulary q).runFrom supply with
    ⟨result, ended⟩
  rcases hansi : (Compile.query ShippedDialect.ansi.dialect.toVocabulary q).runFrom supply with
    ⟨other, after⟩
  rw [hmysql, hansi] at hafter hagrees
  refine ⟨hafter, ?_⟩
  cases hagrees with
  | error e => exact .error e
  | ok hpieces =>
      exact .ok {
        args_eq := hpieces.args_eq.symm
        kinds_eq := hpieces.kinds_eq.symm
        tokens_eq := fun htexts =>
          (hpieces.respelled_eq (Compile.everywhere_texts portable_passesToParts
            ShippedDialect.ansi_spells (.of_not_mem (by decide)) (.of_not_mem (by decide)) hansi
            htexts)).symm }

end BoundSql

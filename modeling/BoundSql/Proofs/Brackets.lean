import BoundSql.Proofs.Numbering
import BoundSql.Proofs.Quoting

/-! # Brackets of a statement

The brackets of a statement match. Every statement nested in it is a segment of its tokens that is
balanced by itself and stands between two brackets that belong together. -/

namespace BoundSql

namespace Token

/-! ## Depth -/

/-- How the number of open brackets changes at a token. -/
def turn (t : Token) : Int :=
  if t = .text "(" then 1 else if t = .text ")" then -1 else 0

/-- The number of open brackets behind tokens. It is negative if more are closed than opened. -/
def depth : List Token → Int
  | [] => 0
  | t :: rest => t.turn + depth rest

@[simp] theorem depth_nil : depth [] = 0 :=
  rfl

@[simp] theorem depth_cons (t : Token) (rest : List Token) :
    depth (t :: rest) = t.turn + depth rest :=
  rfl

@[simp] theorem depth_append (left right : List Token) :
    depth (left ++ right) = depth left + depth right := by
  induction left with
  | nil => simp
  | cons t left ih =>
      rw [List.cons_append, depth_cons, depth_cons, ih]
      omega

@[simp] theorem turn_opening : turn (.text "(") = 1 :=
  rfl

@[simp] theorem turn_closing : turn (.text ")") = -1 :=
  rfl

theorem turn_text_of_ne {word : String} (hopen : word ≠ "(") (hclose : word ≠ ")") :
    turn (.text word) = 0 := by
  simp [turn, hopen, hclose]

/-- A text that starts with any other character is no bracket. -/
theorem turn_text_of_head? {word : String} {c : Char} (h : word.toList.head? = some c)
    (hopen : c ≠ '(') (hclose : c ≠ ')') : turn (.text word) = 0 := by
  apply turn_text_of_ne
  · intro heq
    subst heq
    exact hopen (Option.some.inj h).symm
  · intro heq
    subst heq
    exact hclose (Option.some.inj h).symm

/-! ## Balance -/

/-- From left to right no bracket is closed that is not open, and in the end none is open. -/
structure Balanced (tokens : List Token) : Prop where
  nonneg : ∀ front, front <+: tokens → 0 ≤ depth front
  closed : depth tokens = 0

/-- The bracket behind `front` is closed by the one behind `body`: the depth does not fall back to
that of `front` before. -/
structure Matched (front body : List Token) : Prop where
  inside : ∀ part, part <+: body → depth front < depth (front ++ .text "(" :: part)
  closed : depth (front ++ .text "(" :: (body ++ [.text ")"])) = depth front

theorem balanced_nil : Balanced [] where
  nonneg := by
    intro front hfront
    simp [List.prefix_nil.mp hfront]
  closed := rfl

/-- A token that is no bracket changes nothing. -/
theorem balanced_singleton {t : Token} (ht : t.turn = 0) : Balanced [t] where
  nonneg := by
    intro front hfront
    rcases List.prefix_cons_iff.mp hfront with rfl | ⟨rest, rfl, hrest⟩
    · simp
    · simp [List.prefix_nil.mp hrest, ht]
  closed := by simp [ht]

namespace Balanced

variable {left right body : List Token}

theorem append (hleft : Balanced left) (hright : Balanced right) : Balanced (left ++ right) where
  nonneg := by
    intro front hfront
    rcases List.prefix_or_prefix_of_prefix hfront (List.prefix_append left right) with
      hwithin | ⟨rest, rfl⟩
    · exact hleft.nonneg front hwithin
    · have hbehind := hright.nonneg rest ((List.prefix_append_right_inj left).mp hfront)
      rw [depth_append, hleft.closed]
      omega
  closed := by rw [depth_append, hleft.closed, hright.closed, Int.add_zero]

/-- Up to its last bracket a bracketed text is one deeper than its body. -/
theorem bracketed (h : Balanced body) : Balanced (.text "(" :: (body ++ [.text ")"])) where
  nonneg := by
    intro front hfront
    rcases List.prefix_cons_iff.mp hfront with rfl | ⟨rest, rfl, hrest⟩
    · simp
    · rcases List.prefix_concat_iff.mp hrest with rfl | hwithin
      · simp [h.closed]
      · have hinside := h.nonneg rest hwithin
        rw [depth_cons, turn_opening]
        omega
  closed := by simp [h.closed]

theorem matched (h : Balanced body) (front : List Token) : Matched front body where
  inside := by
    intro part hpart
    have hinside := h.nonneg part hpart
    rw [depth_append, depth_cons, turn_opening]
    omega
  closed := by simp [h.closed]

end Balanced

/-! ## Segments -/

/-- A stretch of tokens between two brackets, with all that stands before and behind these. -/
structure Segment where
  front : List Token
  body : List Token
  behind : List Token

namespace Segment

/-- All the tokens around a segment and in it. -/
def whole (s : Segment) : List Token :=
  s.front ++ .text "(" :: (s.body ++ .text ")" :: s.behind)

/-- The segment among more tokens. -/
def within (left right : List Token) (s : Segment) : Segment :=
  ⟨left ++ s.front, s.body, s.behind ++ right⟩

@[simp] theorem whole_within (left right : List Token) (s : Segment) :
    (s.within left right).whole = left ++ (s.whole ++ right) := by
  simp [whole, within]

/-- The one segment starts before the other. -/
def Before (s t : Segment) : Prop :=
  s.front.length < t.front.length

theorem pairwise_within {segments : List Segment} (h : segments.Pairwise Before)
    (left right : List Token) : (segments.map (within left right)).Pairwise Before := by
  refine List.pairwise_map.mpr (h.imp ?_)
  intro s t hst
  simpa [Before, within] using hst

end Segment

end Token

namespace Piece

open Token (Segment Balanced)

variable (d : Dialect)

mutual

/-- The segments of the statements nested in a piece, every one followed by those nested in it. -/
def segments : Piece → List Segment
  | nested body =>
    ⟨[], tokens d body, []⟩ :: (allSegments body).map (.within [.text "("] [.text ")"])
  | word _ | call _ | slot _ | table _ | source _ _ | target _ | column _ _ | name _
  | proposed _ => []
termination_by structural x => x

def allSegments : List Piece → List Segment
  | [] => []
  | piece :: rest =>
    (segments piece).map (.within [] (tokens d rest)) ++
      (allSegments rest).map (.within (tokens d [piece]) [])
termination_by structural x => x

end

theorem map_body_within (left right : List Token) (segments : List Segment) :
    (segments.map (.within left right)).map Segment.body = segments.map Segment.body := by
  simp [Segment.within]

mutual

/-- There is a segment for every nested statement, in the same order. -/
theorem map_body_segments : (piece : Piece) →
    (segments d piece).map Segment.body = (statements piece).map (tokens d)
  | nested body => by
      rw [segments, statements, List.map_cons, List.map_cons, map_body_within,
        map_body_allSegments body]
  | word _ | call _ | slot _ | table _ | source _ _ | target _ | column _ _ | name _
  | proposed _ => rfl
termination_by structural x => x

theorem map_body_allSegments : (pieces : List Piece) →
    (allSegments d pieces).map Segment.body = (allStatements pieces).map (tokens d)
  | [] => rfl
  | piece :: rest => by
      rw [allSegments, allStatements, List.map_append, List.map_append, map_body_within,
        map_body_within, map_body_segments piece, map_body_allSegments rest]
termination_by structural x => x

end

mutual

theorem whole_segments : (piece : Piece) → ∀ s ∈ segments d piece, s.whole = tokens d [piece]
  | nested body => by
      rw [segments, List.forall_mem_cons, List.forall_mem_map]
      refine ⟨by simp [Segment.whole], ?_⟩
      intro s hs
      simp [whole_allSegments body s hs]
  | word _ | call _ | slot _ | table _ | source _ _ | target _ | column _ _ | name _
  | proposed _ => by simp [segments]
termination_by structural x => x

/-- Every segment is one of the tokens of the pieces. -/
theorem whole_allSegments : (pieces : List Piece) →
    ∀ s ∈ allSegments d pieces, s.whole = tokens d pieces
  | [] => by simp [allSegments]
  | piece :: rest => by
      have hsplit : tokens d (piece :: rest) = tokens d [piece] ++ tokens d rest :=
        tokens_append d [piece] rest
      rw [allSegments, List.forall_mem_append, List.forall_mem_map, List.forall_mem_map, hsplit]
      constructor
      · intro s hs
        simp [whole_segments piece s hs]
      · intro s hs
        simp [whole_allSegments rest s hs]
termination_by structural x => x

end

theorem length_front_lt {s : Segment} {tokens : List Token} (h : s.whole = tokens) :
    s.front.length < tokens.length := by
  rw [← h, Segment.whole, List.length_append, List.length_cons]
  omega

mutual

theorem pairwise_segments : (piece : Piece) → (segments d piece).Pairwise Segment.Before
  | nested body => by
      rw [segments, List.pairwise_cons, List.forall_mem_map]
      refine ⟨?_, Segment.pairwise_within (pairwise_allSegments body) _ _⟩
      intro s _
      simp [Segment.Before, Segment.within]
  | word _ | call _ | slot _ | table _ | source _ _ | target _ | column _ _ | name _
  | proposed _ => .nil
termination_by structural x => x

/-- The segments start one after the other. -/
theorem pairwise_allSegments : (pieces : List Piece) →
    (allSegments d pieces).Pairwise Segment.Before
  | [] => .nil
  | piece :: rest => by
      rw [allSegments, List.pairwise_append]
      refine ⟨Segment.pairwise_within (pairwise_segments piece) _ _,
        Segment.pairwise_within (pairwise_allSegments rest) _ _, ?_⟩
      intro s hs t ht
      obtain ⟨own, hown, rfl⟩ := List.mem_map.mp hs
      obtain ⟨other, -, rfl⟩ := List.mem_map.mp ht
      have hstart := length_front_lt (whole_segments d piece own hown)
      simp only [Segment.Before, Segment.within, List.nil_append, List.length_append]
      omega
termination_by structural x => x

end

/-- Statements nested in pieces are put together as these are. -/
theorem Formed.of_mem_allStatements {allowed : Piece → Prop} {word function : String → Prop}
    {pieces : List Piece} (h : Formed allowed word function pieces) :
    ∀ body ∈ allStatements pieces, Formed allowed word function body := by
  induction h with
  | nil => simp [allStatements]
  | word _ => simp [allStatements, statements]
  | @plain piece hplain _ =>
      cases piece with
      | nested body => exact hplain.elim
      | _ => simp [allStatements, statements]
  | call _ _ ih => simpa [allStatements, statements] using ih
  | bracketed _ ih => simpa using ih
  | nested _ hbody ih => simpa [allStatements, statements] using ⟨hbody, ih⟩
  | append _ _ ihLeft ihRight =>
      rw [allStatements_append, List.forall_mem_append]
      exact ⟨ihLeft, ihRight⟩

end Piece

/-! ## Statements -/

namespace ShippedDialect

open Token (Balanced balanced_singleton)

variable (k : ShippedDialect)

theorem head?_quote (name : String) : (k.dialect.quote name).toList.head? = some k.mark := by
  rw [k.quote_eq, Identifier.quote, String.toList_ofList, Identifier.head?_quoteChars]

theorem head?_compound (owner name : String) :
    (Identifier.quote k.mark owner ++ "." ++ Identifier.quote k.mark name).toList.head? =
      some k.mark := by
  rw [← k.quote_eq owner, String.append_assoc, String.toList_append, List.head?_append,
    k.head?_quote owner]
  rfl

theorem head?_table (t : Table) : (k.dialect.table t).toList.head? = some k.mark := by
  rw [k.table_eq]
  cases t.schema with
  | none => exact k.quote_eq t.name ▸ k.head?_quote t.name
  | some schema => exact k.head?_compound schema t.name

/-- What starts with the quote of the dialect is no bracket. -/
theorem turn_of_head? {text : String} (h : text.toList.head? = some k.mark) :
    Token.turn (.text text) = 0 :=
  Token.turn_text_of_head? h (by cases k <;> decide) (by cases k <;> decide)

theorem turn_quote (name : String) : Token.turn (.text (k.dialect.quote name)) = 0 :=
  k.turn_of_head? (k.head?_quote name)

/-- Only a proposed value is written with brackets of its own. -/
theorem balanced_plain {piece : Piece} (h : piece.Plain) :
    Balanced (Piece.tokens k.dialect [piece]) := by
  rw [Piece.tokens_cons, Piece.tokens_nil, List.append_nil]
  cases piece with
  | word _ | call _ | nested _ => exact h.elim
  | slot value =>
      rw [Piece.items, List.map_singleton, Item.toToken, k.placeholder_eq]
      exact balanced_singleton rfl
  | table t => exact balanced_singleton (k.turn_of_head? (k.head?_table t))
  | source t a =>
      have htable := balanced_singleton (k.turn_of_head? (k.head?_table t))
      have has : Balanced [.text "AS"] := balanced_singleton rfl
      have halias := balanced_singleton (k.turn_quote a.name)
      exact htable.append (has.append halias)
  | target a => exact balanced_singleton (k.turn_quote a.name)
  | column a own =>
      have hcolumn : (k.dialect.column a.name own).toList.head? = some k.mark := by
        rw [k.column_eq]
        exact k.head?_compound a.name own
      exact balanced_singleton (k.turn_of_head? hcolumn)
  | name own => exact balanced_singleton (k.turn_quote own)
  | proposed own =>
      rw [Piece.items, k.proposed_eq, ← k.quote_eq]
      have hfunction : Balanced [.function "VALUES"] := balanced_singleton rfl
      have hcolumn := balanced_singleton (k.turn_quote own)
      exact hfunction.append hcolumn.bracketed

/-- The text is not a bracket. -/
def NoBracket (text : String) : Prop :=
  text ≠ "(" ∧ text ≠ ")"

theorem spells_noBracket : k.dialect.toVocabulary.Spells NoBracket (fun _ => True) := by
  refine k.spells ?_ ?_
  · unfold NoBracket
    decide
  · intro _ _
    trivial

/-- Pieces are balanced if no word of theirs is a bracket but for the pairs around other pieces. -/
theorem balanced_of_formed {pieces : List Piece}
    (h : Piece.Formed (fun _ => True) NoBracket (fun _ => True) pieces) :
    Balanced (Piece.tokens k.dialect pieces) := by
  induction h with
  | nil => exact Token.balanced_nil
  | @word text htext =>
      simpa using balanced_singleton (Token.turn_text_of_ne htext.1 htext.2)
  | plain hpiece _ => exact k.balanced_plain hpiece
  | @call name args _ _ ih =>
      have hfunction : Balanced [.function name] := balanced_singleton rfl
      simpa [Piece.tokens_cons, Piece.items, Item.toToken] using hfunction.append ih.bracketed
  | bracketed _ ih => simpa using ih.bracketed
  | nested _ _ ih => simpa using ih.bracketed
  | append _ _ ihLeft ihRight => simpa using ihLeft.append ihRight

end ShippedDialect

/-- Where no raw text is a bracket, the brackets of a statement match, function calls and proposed
values included. The statements nested in it, taken in their order, are segments of its tokens that
start one after the other, every one balanced by itself and directly between two brackets that
match. -/
theorem Query.compile_balanced {k : ShippedDialect} {q : Query} {supply after : AliasSupply}
    {c : Clause} (h : q.compile k.dialect supply = (.ok c, after))
    (hraw : q.Verbatim (fun text => text ≠ "(" ∧ text ≠ ")") (fun _ => True)) :
    Token.Balanced c.tokens ∧
    ∃ (root : Lowered) (nested : List Lowered) (segments : List Token.Segment),
      (root :: nested).map Lowered.statement = q.statements ∧
      (∀ l ∈ root :: nested, l.Runs k.dialect.toVocabulary) ∧
      c = Clause.ofPieces k.dialect root.pieces ∧
      segments.map Token.Segment.body = nested.map (fun l => Piece.tokens k.dialect l.pieces) ∧
      segments.Pairwise Token.Segment.Before ∧
      ∀ s ∈ segments,
        s.whole = c.tokens ∧ Token.Balanced s.body ∧ Token.Matched s.front s.body := by
  obtain ⟨pieces, hpieces, rfl⟩ := compile_ok.mp h
  have hformed := Compile.query_formed k.spells_noBracket q hraw hpieces
  obtain ⟨runs, hruns⟩ := Compile.numbers_query q hpieces
  obtain ⟨root, nested, rfl, rfl, hbodies⟩ := List.map_eq_cons_iff.mp hruns.bodies_eq
  refine ⟨k.balanced_of_formed hformed, root, nested, Piece.allSegments k.dialect root.pieces,
    hruns.statements_eq, hruns.all_run, rfl, ?_, Piece.pairwise_allSegments _ _, ?_⟩
  · rw [Piece.map_body_allSegments, ← hbodies, List.map_map]
    rfl
  · intro s hs
    have hbody : Token.Balanced s.body := by
      have hmem := List.mem_map_of_mem (f := Token.Segment.body) hs
      rw [Piece.map_body_allSegments] at hmem
      obtain ⟨body, hnested, hwritten⟩ := List.mem_map.mp hmem
      exact hwritten ▸ k.balanced_of_formed (hformed.of_mem_allStatements body hnested)
    exact ⟨Piece.whole_allSegments _ _ s hs, hbody, hbody.matched s.front⟩

/-- The statement for large orders nests three others, the second of them in the first. -/
theorem Query.compile_balanced_largeOrders :
    ∃ c, largeOrders.compile ShippedDialect.ansi.dialect {} = (.ok c, ⟨5⟩) ∧
      largeOrders.Verbatim (fun text => text ≠ "(" ∧ text ≠ ")") (fun _ => True) ∧
      Token.Balanced c.tokens ∧
      ∃ segments : List Token.Segment, segments.length = 3 ∧
        ∀ s ∈ segments, s.whole = c.tokens ∧ Token.Matched s.front s.body := by
  obtain ⟨c, hcompile⟩ :
      ∃ c, largeOrders.compile ShippedDialect.ansi.dialect {} = (.ok c, ⟨5⟩) := ⟨_, rfl⟩
  have hraw : largeOrders.Verbatim (fun text => text ≠ "(" ∧ text ≠ ")") (fun _ => True) := by
    simp [largeOrders, Query.Verbatim, Condition.OptionVerbatim, Condition.Verbatim,
      Operand.Verbatim, Field.Verbatim, Field.AllVerbatim, Action.Verbatim]
  obtain ⟨hbalanced, root, nested, segments, hstatements, -, -, hbodies, -, hsegments⟩ :=
    Query.compile_balanced hcompile hraw
  have hcount : segments.length = 3 := by
    have hnested := congrArg List.length hstatements
    have hlength := congrArg List.length hbodies
    simp only [List.length_map, List.length_cons] at hnested hlength
    have hfour : largeOrders.statements.length = 4 := rfl
    omega
  refine ⟨c, hcompile, hraw, hbalanced, segments, hcount, ?_⟩
  intro s hs
  exact ⟨(hsegments s hs).1, (hsegments s hs).2.2⟩

end BoundSql

import BoundSql.Dialect.Shipped
import BoundSql.Proofs.Infix
import BoundSql.Proofs.Lowering.Compile
import BoundSql.Proofs.Lowering.Written
import Mathlib.Data.List.Forall2

/-! # The meaning of written conditions

A condition is a tree over comparisons. It is written as an infix expression in which brackets
stand around the groups among the conditions of a group and nowhere else, so that only one
operator occurs at a bracket level and ranks of operators do not matter. -/

namespace BoundSql

open Infix

/-! ## The truth of a condition -/

/-- The truth of conditions joined by one operator, from the left. -/
def LogicalOp.fold (op : LogicalOp) : List Bool → Bool
  | [] => false
  | b :: rest => rest.foldl op.apply b

namespace Condition

mutual

/-- The comparisons of a condition from left to right. -/
def leaves : Condition → List Condition
  | group _ conditions => allLeaves conditions
  | c => [c]
termination_by structural x => x

def allLeaves : List Condition → List Condition
  | [] => []
  | c :: rest => leaves c ++ allLeaves rest
termination_by structural x => x

end

mutual

/-- The truth of a condition, given the truth of every comparison by its place from left to right;
the first comparison of the condition has the place `next`. -/
def value (truth : Nat → Bool) : Condition → Nat → Bool
  | group op conditions, next => op.fold (values truth conditions next)
  | _, next => truth next
termination_by structural x => x

def values (truth : Nat → Bool) : List Condition → Nat → List Bool
  | [], _ => []
  | c :: rest, next => value truth c next :: values truth rest (next + c.leaves.length)
termination_by structural x => x

end

mutual

/-- The lexemes of a condition, with the comparisons for atoms. -/
def lexemes : Condition → Nat → List Lexeme
  | group op conditions, next => [Lexeme.operator op].intercalate (partLexemes conditions next)
  | _, next => [.atom next]
termination_by structural x => x

/-- The lexemes of the conditions of a group, brackets around groups among them. -/
def partLexemes : List Condition → Nat → List (List Lexeme)
  | [], _ => []
  | c :: rest, next =>
    (if c.isGroup then .opening :: (lexemes c next ++ [.closing]) else lexemes c next) ::
      partLexemes rest (next + c.leaves.length)
termination_by structural x => x

end

end Condition

/-! ## Reading the lexemes of a condition -/

section

variable {rank : LogicalOp → Nat} {truth : Nat → Bool}

/-- An expression followed by parts with one operator before each associates to the left. -/
theorem reads_chain (op : LogicalOp) {parts : List (List Lexeme)} {bs : List Bool}
    (hparts : List.Forall₂ (fun part b => ∀ level, Reads rank truth level part b) parts bs)
    {left : List Lexeme} {a : Bool} (hleft : Reads rank truth (rank op) left a) :
    Reads rank truth (rank op) (left ++ (parts.map (.operator op :: ·)).flatten)
      (bs.foldl op.apply a) := by
  induction hparts generalizing left a with
  | nil => simpa using hleft
  | @cons part b rest bs hpart hrest ih =>
      have hjoined := Reads.join (Nat.le_refl _) hleft (hpart (rank op + 1))
      simpa [List.append_assoc] using ih hjoined

theorem intercalate_cons {α : Type} (separator : α) (part : List α) (rest : List (List α)) :
    [separator].intercalate (part :: rest) = part ++ (rest.map (separator :: ·)).flatten := by
  induction rest generalizing part with
  | nil => simp [List.intercalate]
  | cons next rest ih => simpa [List.intercalate] using ih next

/-- The part of a group that is a comparison is an atom, any other part stands between brackets; so
parts are read at every level. -/
theorem reads_part {c : Condition} {next : Nat}
    (h : Reads rank truth 0 (c.lexemes next) (c.value truth next)) (level : Nat) :
    Reads rank truth level
      (if c.isGroup then .opening :: (c.lexemes next ++ [.closing]) else c.lexemes next)
      (c.value truth next) := by
  cases c with
  | compare field op x => exact .atom level next
  | spec spec x => exact .atom level next
  | group op conditions => exact .brackets level h

variable {v : Vocabulary}

mutual

/-- The lexemes of a condition that compiles are an expression, and its truth is that of the
condition. -/
theorem reads_condition : (c : Condition) → {s : Scope} → {supply after : AliasSupply} →
    {pieces : List Piece} → (Compile.condition v s c).runFrom supply = (.ok pieces, after) →
    (next : Nat) → Reads rank truth 0 (c.lexemes next) (c.value truth next)
  | .compare .., _, _, _, _, _, next => .atom 0 next
  | .spec .., _, _, _, _, _, next => .atom 0 next
  | .group op conditions, s, supply, after, pieces, h, next => by
      obtain ⟨hne, parts, hparts, -⟩ := Compile.condition_group_ok.mp h
      have hreads := reads_children conditions hparts next
      cases conditions with
      | nil => exact absurd rfl hne
      | cons c rest =>
          rw [Condition.partLexemes, Condition.values] at hreads
          obtain ⟨hpart, hrest⟩ := List.forall₂_cons.mp hreads
          rw [Condition.lexemes, Condition.partLexemes, intercalate_cons, Condition.value,
            Condition.values, LogicalOp.fold]
          exact (reads_chain op hrest (hpart _)).mono (Nat.zero_le _)
termination_by structural x => x

theorem reads_children : (conditions : List Condition) → {s : Scope} →
    {supply after : AliasSupply} → {parts : List (List Piece)} →
    (Compile.children v s conditions).runFrom supply = (.ok parts, after) → (next : Nat) →
    List.Forall₂ (fun part b => ∀ level, Reads rank truth level part b)
      (Condition.partLexemes conditions next) (Condition.values truth conditions next)
  | [], _, _, _, _, _, next => .nil
  | c :: rest, s, supply, after, parts, h, next => by
      obtain ⟨part, between, hpart, others, hothers, -⟩ := Compile.children_cons_ok.mp h
      rw [Condition.partLexemes, Condition.values]
      exact .cons (reads_part (reads_condition c hpart next)) (reads_children rest hothers _)
termination_by structural x => x

end

end

/-! ## From tokens to lexemes -/

/-- The lexeme that a token is where no atom starts. -/
def lexeme? (v : Vocabulary) (t : Token) : Option Lexeme :=
  if t = .text "(" then some .opening
  else if t = .text ")" then some .closing
  else ([LogicalOp.and, .or, .xor].find? fun op => t == .text (v.logical op)).map .operator

/-- The lexemes of tokens up to the first place where the atom starts, and behind the atom those
that `after` finds. -/
def lexUpTo (v : Vocabulary) (atom : List Token) (index : Nat)
    (after : List Token → Option (List Lexeme)) : List Token → Option (List Lexeme)
  | [] => none
  | t :: rest =>
    if atom.isPrefixOf (t :: rest) then
      (after ((t :: rest).drop atom.length)).map (.atom index :: ·)
    else do
      let lexeme ← lexeme? v t
      let others ← lexUpTo v atom index after rest
      return lexeme :: others

/-- The lexemes of tokens in which the given atoms occur in their order. -/
def lex (v : Vocabulary) : List (List Token) → Nat → List Token → Option (List Lexeme)
  | [], _, tokens => tokens.mapM (lexeme? v)
  | atom :: atoms, next, tokens => lexUpTo v atom next (lex v atoms (next + 1)) tokens

/-- The truth of tokens read as an infix expression over the given atoms. -/
def readTokens (v : Vocabulary) (rank : LogicalOp → Nat) (truth : Nat → Bool)
    (atoms : List (List Token)) (tokens : List Token) : Option Bool :=
  (lex v atoms 0 tokens).bind (evaluate rank truth)

/-- Tokens that start and end with a bracket. -/
def Enclosed (tokens : List Token) : Prop :=
  ∃ body, tokens = .text "(" :: (body ++ [.text ")"])

/-- The number of opening brackets at the start of tokens. -/
def openings : List Token → Nat
  | [] => 0
  | t :: rest => if t = .text "(" then openings rest + 1 else 0

theorem openings_append {t : Token} {tokens : List Token} (hmem : t ∈ tokens)
    (ht : t ≠ .text "(") (rest : List Token) :
    openings (tokens ++ rest) = openings tokens := by
  induction tokens with
  | nil => cases hmem
  | cons u tokens ih =>
      by_cases hu : u = .text "("
      · have htail : t ∈ tokens := by
          rcases List.mem_cons.mp hmem with rfl | htail
          · exact absurd hu ht
          · exact htail
        rw [List.cons_append, openings, openings, if_pos hu, if_pos hu, ih htail]
      · rw [List.cons_append, openings, openings, if_neg hu, if_neg hu]

theorem Enclosed.openings_append {atom : List Token} (h : Enclosed atom) (rest : List Token) :
    openings (atom ++ rest) = openings atom := by
  obtain ⟨body, rfl⟩ := h
  have hmem : Token.text ")" ∈ .text "(" :: (body ++ [.text ")"]) := by simp
  exact BoundSql.openings_append hmem (by decide) rest

/-- An atom does not start before more brackets than it starts with. -/
theorem Enclosed.not_starts {atom tokens : List Token} (h : Enclosed atom)
    (hlt : openings atom < openings tokens) : ¬ atom <+: tokens := by
  rintro ⟨rest, rfl⟩
  rw [h.openings_append] at hlt
  exact Nat.lt_irrefl _ hlt

theorem Enclosed.not_starts_cons {atom : List Token} (h : Enclosed atom) {t : Token}
    (ht : t ≠ .text "(") (rest : List Token) : ¬ atom <+: t :: rest := by
  obtain ⟨body, rfl⟩ := h
  rintro ⟨behind, heq⟩
  exact ht (List.cons.inj heq).1.symm

section

variable {v : Vocabulary}

theorem lex_atom {atom : List Token} (h : Enclosed atom) (atoms : List (List Token))
    (next : Nat) (rest : List Token) :
    lex v (atom :: atoms) next (atom ++ rest) =
      (lex v atoms (next + 1) rest).map (.atom next :: ·) := by
  have hprefix : atom.isPrefixOf (atom ++ rest) = true :=
    List.isPrefixOf_iff_prefix.mpr (List.prefix_append atom rest)
  have hdrop : (atom ++ rest).drop atom.length = rest := List.drop_left
  obtain ⟨body, hbody⟩ := h
  cases hwhole : atom ++ rest with
  | nil => simp [hbody] at hwhole
  | cons t others => rw [lex, lexUpTo, ← hwhole, if_pos hprefix, hdrop]

/-- A token that starts no atom is a lexeme of its own. -/
theorem lex_cons {t : Token} {lexeme : Lexeme} (ht : lexeme? v t = some lexeme)
    {atoms : List (List Token)} {rest : List Token}
    (h : ∀ atom ∈ atoms.head?, ¬ atom <+: t :: rest) (next : Nat) :
    lex v atoms next (t :: rest) = (lex v atoms next rest).map (lexeme :: ·) := by
  cases atoms with
  | nil =>
      rw [lex, lex, List.mapM_cons, ht]
      cases rest.mapM (lexeme? v) <;> rfl
  | cons atom atoms =>
      have hprefix : ¬ atom.isPrefixOf (t :: rest) = true :=
        fun hp => h atom rfl (List.isPrefixOf_iff_prefix.mp hp)
      rw [lex, lexUpTo, if_neg hprefix, ht, lex]
      cases lexUpTo v atom next (lex v atoms (next + 1)) rest <;> rfl

/-- How tokens fall into lexemes, whatever stands behind them. The first atom does not start before
more brackets than the tokens do, so that a bracket before them is one of a group. -/
structure Lexes (v : Vocabulary) (atoms : List (List Token)) (tokens : List Token)
    (lexemes : Nat → List Lexeme) : Prop where
  enclosed : ∀ atom ∈ atoms, Enclosed atom
  leads : ∃ first others, atoms = first :: others ∧
    ∀ rest, openings first ≤ openings (tokens ++ rest)
  lex_eq : ∀ (more : List (List Token)) (next : Nat) (rest : List Token),
    (∀ atom ∈ more, Enclosed atom) →
      lex v (atoms ++ more) next (tokens ++ rest) =
        (lex v more (next + atoms.length) rest).map (lexemes next ++ ·)

namespace Lexes

variable {atoms others : List (List Token)} {tokens behind : List Token}
  {lexemes following : Nat → List Lexeme}

theorem atom {atom : List Token} (h : Enclosed atom) :
    Lexes v [atom] atom fun next => [.atom next] where
  enclosed := by simpa using h
  leads := ⟨atom, [], rfl, fun rest => Nat.le_of_eq (h.openings_append rest).symm⟩
  lex_eq more next rest _ := lex_atom h more next rest

/-- No atom starts at a token other than an opening bracket. -/
theorem not_starts_head {more : List (List Token)} (hmore : ∀ atom ∈ more, Enclosed atom)
    {t : Token} (ht : t ≠ .text "(") (rest : List Token) :
    ∀ atom ∈ more.head?, ¬ atom <+: t :: rest := fun atom hatom =>
  (hmore atom (List.mem_of_mem_head? hatom)).not_starts_cons ht rest

theorem brackets (h : Lexes v atoms tokens lexemes) :
    Lexes v atoms (.text "(" :: (tokens ++ [.text ")"]))
      fun next => .opening :: (lexemes next ++ [.closing]) where
  enclosed := h.enclosed
  leads := by
    obtain ⟨first, others, rfl, hle⟩ := h.leads
    refine ⟨first, others, rfl, fun rest => ?_⟩
    have hbehind := hle (.text ")" :: rest)
    simp only [List.cons_append, List.append_assoc, List.nil_append, openings, if_true]
    exact Nat.le_succ_of_le hbehind
  lex_eq more next rest hmore := by
    obtain ⟨first, others, rfl, hle⟩ := h.leads
    have hopening : ∀ atom ∈ (first :: others ++ more).head?,
        ¬ atom <+: .text "(" :: (tokens ++ .text ")" :: rest) := by
      intro atom hatom
      obtain rfl : first = atom := by simpa using hatom
      refine (h.enclosed first (by simp)).not_starts ?_
      rw [openings, if_pos rfl]
      exact Nat.lt_succ_of_le (hle _)
    have hclosing := not_starts_head hmore (t := .text ")") (by decide) rest
    have hsplit : .text "(" :: (tokens ++ [.text ")"]) ++ rest =
        Token.text "(" :: (tokens ++ .text ")" :: rest) := by simp
    rw [hsplit, lex_cons rfl hopening, h.lex_eq more next _ hmore, lex_cons rfl hclosing,
      Option.map_map, Option.map_map]
    congr 1
    funext ls
    simp

/-- Expressions with an operator between them. -/
theorem join {op : LogicalOp} {word : String}
    (hword : lexeme? v (.text word) = some (.operator op))
    (h : Lexes v atoms tokens lexemes) (hbehind : Lexes v others behind following) :
    Lexes v (atoms ++ others) (tokens ++ .text word :: behind)
      fun next => lexemes next ++ .operator op :: following (next + atoms.length) where
  enclosed := List.forall_mem_append.mpr ⟨h.enclosed, hbehind.enclosed⟩
  leads := by
    obtain ⟨first, rest, rfl, hle⟩ := h.leads
    refine ⟨first, rest ++ others, rfl, fun after => ?_⟩
    rw [List.append_assoc]
    exact hle _
  lex_eq more next rest hmore := by
    have hall : ∀ atom ∈ others ++ more, Enclosed atom :=
      List.forall_mem_append.mpr ⟨hbehind.enclosed, hmore⟩
    have hbracket : Token.text word ≠ .text "(" := by
      intro heq
      rw [heq] at hword
      cases hword
    have hstart := not_starts_head hall hbracket (behind ++ rest)
    rw [List.append_assoc, List.append_assoc, h.lex_eq _ next _ hall, List.cons_append,
      lex_cons hword hstart, hbehind.lex_eq more _ rest hmore, Option.map_map, Option.map_map,
      List.length_append, Nat.add_assoc]
    congr 1
    funext ls
    simp

end Lexes

/-! ## Written conditions -/

/-- The words for the logical operators are told apart, and none is a bracket. -/
def LogicalWords (v : Vocabulary) : Prop :=
  ∀ op, lexeme? v (.text (v.logical op)) = some (.operator op)

variable {d : Dialect}

theorem enclosed_comparison {s : Scope} {f : Field} {op : Operator} {x : Compile (List Piece)}
    {supply after : AliasSupply} {pieces : List Piece}
    (h : (Compile.comparison v s f op x).runFrom supply = (.ok pieces, after)) :
    Enclosed (Piece.tokens d pieces) := by
  obtain ⟨word, -, left, -, right, -, rfl⟩ := Compile.comparison_ok.mp h
  exact ⟨_, Piece.tokens_bracketed d _⟩

/-- A comparison is the only one among its comparisons. -/
theorem mapM_singleton_ok {s : Scope} {c : Condition} {supply after : AliasSupply}
    {pieces : List Piece} (h : (Compile.condition v s c).runFrom supply = (.ok pieces, after)) :
    ([c].mapM (Compile.condition v s)).runFrom supply = (.ok [pieces], after) := by
  rw [List.mapM_cons, List.mapM_nil, Compile.bind_ok]
  exact ⟨pieces, after, h, rfl⟩

theorem mapM_append_ok {s : Scope} {cs ds : List Condition} {supply between after : AliasSupply}
    {atoms others : List (List Piece)}
    (h : (cs.mapM (Compile.condition v s)).runFrom supply = (.ok atoms, between))
    (hothers : (ds.mapM (Compile.condition v s)).runFrom between = (.ok others, after)) :
    ((cs ++ ds).mapM (Compile.condition v s)).runFrom supply = (.ok (atoms ++ others), after) := by
  rw [List.mapM_append, Compile.bind_ok]
  refine ⟨atoms, between, h, ?_⟩
  rw [Compile.bind_ok]
  exact ⟨others, after, hothers, rfl⟩

theorem lexes_part {c : Condition} {atoms : List (List Token)} {part : List Piece}
    (h : Lexes v atoms (Piece.tokens d part) c.lexemes) :
    Lexes v atoms (Piece.tokens d (if c.isGroup then Piece.bracketed part else part)) fun next =>
      if c.isGroup then .opening :: (c.lexemes next ++ [.closing]) else c.lexemes next := by
  cases c.isGroup with
  | true => simpa using h.brackets
  | false => simpa using h

mutual

/-- A condition that compiles is written in the lexemes of the condition, its atoms being what its
comparisons compile to one after the other. -/
theorem lexes_condition (hwords : LogicalWords v) : (c : Condition) → {s : Scope} →
    {supply after : AliasSupply} → {pieces : List Piece} →
    (Compile.condition v s c).runFrom supply = (.ok pieces, after) →
    ∃ atoms, (c.leaves.mapM (Compile.condition v s)).runFrom supply = (.ok atoms, after) ∧
      atoms.length = c.leaves.length ∧
      Lexes v (atoms.map (Piece.tokens d)) (Piece.tokens d pieces) c.lexemes
  | .compare f op x, s, supply, after, pieces, h => by
      refine ⟨[pieces], mapM_singleton_ok h, rfl, Lexes.atom ?_⟩
      rw [Compile.condition] at h
      exact enclosed_comparison h
  | .spec spec x, s, supply, after, pieces, h => by
      refine ⟨[pieces], mapM_singleton_ok h, rfl, Lexes.atom ?_⟩
      obtain ⟨f, op, -, h⟩ := Compile.condition_spec_ok.mp h
      exact enclosed_comparison h
  | .group op conditions, s, supply, after, pieces, h => by
      obtain ⟨hne, parts, hparts, rfl⟩ := Compile.condition_group_ok.mp h
      obtain ⟨atoms, hrun, hlength, hlexes⟩ := lexes_children hwords conditions hparts hne
      refine ⟨atoms, hrun, hlength, ?_⟩
      rw [Piece.tokens_separated]
      exact hlexes op
termination_by structural x => x

theorem lexes_children (hwords : LogicalWords v) : (conditions : List Condition) →
    {s : Scope} → {supply after : AliasSupply} → {parts : List (List Piece)} →
    (Compile.children v s conditions).runFrom supply = (.ok parts, after) → conditions ≠ [] →
    ∃ atoms, ((Condition.allLeaves conditions).mapM (Compile.condition v s)).runFrom supply =
        (.ok atoms, after) ∧
      atoms.length = (Condition.allLeaves conditions).length ∧
      ∀ op, Lexes v (atoms.map (Piece.tokens d))
        ([Token.text (v.logical op)].intercalate (parts.map (Piece.tokens d)))
        fun next => [Lexeme.operator op].intercalate (Condition.partLexemes conditions next)
  | [], _, _, _, _, _, hne => absurd rfl hne
  | c :: rest, s, supply, after, parts, h, _ => by
      obtain ⟨part, between, hpart, others, hothers, rfl⟩ := Compile.children_cons_ok.mp h
      obtain ⟨atoms, hrun, hlength, hlexes⟩ := lexes_condition hwords c hpart
      have hchild := lexes_part hlexes
      have ih := lexes_children hwords rest hothers
      cases rest with
      | nil =>
          obtain ⟨rfl, rfl⟩ : others = [] ∧ after = between := by
            simpa [Compile.children, eq_comm] using hothers
          refine ⟨atoms, ?_, ?_, fun op => ?_⟩
          · simpa [Condition.allLeaves] using hrun
          · simpa [Condition.allLeaves] using hlength
          · simpa [List.intercalate, Condition.partLexemes] using hchild
      | cons following rest =>
          obtain ⟨behind, hbehind, hcount, hjoined⟩ := ih (by simp)
          refine ⟨atoms ++ behind, mapM_append_ok hrun hbehind, ?_, fun op => ?_⟩
          · rw [Condition.allLeaves, List.length_append, List.length_append, hlength, hcount]
          · obtain ⟨_, _, -, _, -, rfl⟩ := Compile.children_cons_ok.mp hothers
            have hjoin := hchild.join (hwords op) (hjoined op)
            simpa [List.intercalate, Condition.partLexemes, hlength] using hjoin
termination_by structural x => x

end

end

/-! ## Meaning -/

theorem ShippedDialect.logicalWords (k : ShippedDialect) : LogicalWords k.dialect.toVocabulary := by
  intro op
  cases k <;> cases op <;> rfl

/-- The tokens behind WHERE or HAVING mean the condition. With what every comparison compiles to for
an atom, and whatever the ranks of the operators are, they are an infix expression whose truth is
that of the condition. -/
theorem Condition.readTokens_conditionClause (k : ShippedDialect) (s : Scope) (word : String)
    (c : Condition) {supply after : AliasSupply} {pieces : List Piece}
    (h : (Compile.conditionClause k.dialect.toVocabulary s word (some c)).runFrom supply =
      (.ok pieces, after)) :
    ∃ expression atoms,
      Piece.tokens k.dialect pieces = .text word :: expression ∧
      (c.leaves.mapM (Compile.condition k.dialect.toVocabulary s)).runFrom supply =
        (.ok atoms, after) ∧
      atoms.length = c.leaves.length ∧
      (∀ atom ∈ atoms, Enclosed (Piece.tokens k.dialect atom)) ∧
      ∀ (rank : LogicalOp → Nat) (truth : Nat → Bool),
        readTokens k.dialect.toVocabulary rank truth (atoms.map (Piece.tokens k.dialect))
          expression = some (c.value truth 0) := by
  obtain ⟨part, hpart, rfl⟩ := Compile.conditionClause_some_ok.mp h
  obtain ⟨atoms, hrun, hlength, hlexes⟩ := lexes_condition (d := k.dialect) k.logicalWords c hpart
  refine ⟨Piece.tokens k.dialect part, atoms, Piece.tokens_word_cons _ _ _, hrun, hlength, ?_, ?_⟩
  · intro atom hatom
    exact hlexes.enclosed _ (List.mem_map_of_mem hatom)
  · intro rank truth
    have hlex := hlexes.lex_eq [] 0 [] (by simp)
    rw [List.append_nil, List.append_nil] at hlex
    rw [readTokens, hlex]
    simpa [lex] using evaluate_of_reads (reads_condition c hpart 0)

/-- Either the first comparison holds, or the second does and exactly one of the other two. -/
def Condition.eitherUser : Condition :=
  .group .or [.spec "name__eq" (.literal (.string "ann")),
    .group .and [.spec "age__gte" (.literal (.int 18)),
      .group .xor [.spec "state__is" .null,
        .compare (.named "id") .isIn (.subquery
          { table := some ⟨"orders", none⟩
            action := some (.select [.named "user_id"]) })]]]

theorem Condition.readTokens_conditionClause_eitherUser :
    ∃ pieces,
      (Compile.conditionClause ShippedDialect.mysql.dialect.toVocabulary
        ⟨⟨"users", none⟩, ⟨0⟩, none⟩ "WHERE" (some eitherUser)).runFrom ⟨1⟩ =
          (.ok pieces, ⟨2⟩) ∧
      ∃ expression atoms,
        Piece.tokens ShippedDialect.mysql.dialect pieces = .text "WHERE" :: expression ∧
        atoms.length = 4 ∧
        ∀ (rank : LogicalOp → Nat) (truth : Nat → Bool),
          readTokens ShippedDialect.mysql.dialect.toVocabulary rank truth atoms expression =
            some (truth 0 || (truth 1 && (truth 2 ^^ truth 3))) := by
  obtain ⟨pieces, hrun⟩ : ∃ pieces,
      (Compile.conditionClause ShippedDialect.mysql.dialect.toVocabulary
        ⟨⟨"users", none⟩, ⟨0⟩, none⟩ "WHERE" (some eitherUser)).runFrom ⟨1⟩ =
          (.ok pieces, ⟨2⟩) := ⟨_, rfl⟩
  obtain ⟨expression, atoms, htokens, -, hlength, -, hread⟩ :=
    Condition.readTokens_conditionClause .mysql _ _ _ hrun
  exact ⟨pieces, hrun, expression, _, htokens, (List.length_map _).trans hlength, hread⟩

end BoundSql

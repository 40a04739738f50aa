import BoundSql.Proofs.Lowering.Compile
import BoundSql.Proofs.Lowering.Scoping
import BoundSql.Proofs.Lowering.Verbatim

/-! # How pieces are put together

Whatever a query says, it is lowered to words, names and markers one after the other, to pieces
between brackets and to nested statements, and a function always stands before brackets. -/

namespace BoundSql

namespace Piece

/-- The piece names something or is the place of a value. -/
def Plain : Piece → Prop
  | slot _ | table _ | source _ _ | target _ | column _ _ | name _ | proposed _ => True
  | word _ | call _ | nested _ => False

/-- Pieces as a statement puts them together. Its words have one property, the words for functions
have another, and all other pieces are allowed ones. -/
inductive Formed (allowed : Piece → Prop) (word function : String → Prop) : List Piece → Prop where
  | nil : Formed allowed word function []
  | word {text : String} (h : word text) : Formed allowed word function [.word text]
  | plain {piece : Piece} (h : piece.Plain) (hallowed : allowed piece) :
      Formed allowed word function [piece]
  | call {name : String} {args : List Piece} (h : function name)
      (hargs : Formed allowed word function args) :
      Formed allowed word function (.call name :: bracketed args)
  | bracketed {body : List Piece} (h : Formed allowed word function body) :
      Formed allowed word function (bracketed body)
  | nested {body : List Piece} (hallowed : allowed (.nested body))
      (h : Formed allowed word function body) : Formed allowed word function [.nested body]
  | append {left right : List Piece} (hleft : Formed allowed word function left)
      (hright : Formed allowed word function right) :
      Formed allowed word function (left ++ right)

namespace Formed

variable {allowed : Piece → Prop} {word function : String → Prop} {rest : List Piece}

theorem word_cons {text : String} (h : word text) (hrest : Formed allowed word function rest) :
    Formed allowed word function (.word text :: rest) :=
  .append (.word h) hrest

theorem plain_cons {piece : Piece} (h : piece.Plain) (hallowed : allowed piece)
    (hrest : Formed allowed word function rest) : Formed allowed word function (piece :: rest) :=
  .append (.plain h hallowed) hrest

theorem separated {text : String} {parts : List (List Piece)} (htext : word text)
    (h : ∀ part ∈ parts, Formed allowed word function part) :
    Formed allowed word function (separated text parts) := by
  induction parts with
  | nil => exact .nil
  | cons part rest ih =>
      have hpart := h part (by simp)
      have hrest := ih fun other hother => h other (List.mem_cons_of_mem _ hother)
      cases rest with
      | nil => simpa using hpart
      | cons next rest =>
          rw [separated_cons_cons]
          exact hpart.append (.word_cons htext hrest)

/-- If nothing but pieces within a scope is allowed, then all pieces are within it. -/
theorem allWithin {s : Scope} {pieces : List Piece} (h : Formed (Within s) word function pieces) :
    AllWithin s pieces := by
  induction h with
  | nil => exact allWithin_nil
  | word h => exact .cons trivial allWithin_nil
  | plain h hallowed => exact .cons hallowed allWithin_nil
  | call h hargs ih => exact .cons trivial ih.bracketed
  | bracketed h ih => exact ih.bracketed
  | nested hallowed h ih => exact hallowed.elim
  | append hleft hright ihLeft ihRight => exact ihLeft.append ihRight

end Formed

end Piece

theorem Scope.mainColumn_plain (s : Scope) (name : String) : (s.mainColumn name).Plain :=
  trivial

theorem Scope.resolve_plain (s : Scope) (name : String) : (s.resolve name).Plain := by
  unfold resolve
  split
  · split
    · trivial
    · exact s.mainColumn_plain name
  · exact s.mainColumn_plain name

/-- The words of every statement, but for brackets. -/
def Statement.keywords : List String :=
  ["SELECT", "FROM", "UPDATE", "SET", "DELETE", "VALUES", "ON", "=", ", ", ",", "WHERE",
    "GROUP BY", "HAVING", "ORDER BY", "OFFSET", "LIMIT"]

/-- The words of every statement and those of the vocabulary have the one property, and the words
for functions have the other one if the names of these have it. -/
structure Vocabulary.Spells (v : Vocabulary) (word function : String → Prop) : Prop where
  keyword : ∀ w ∈ Statement.keywords, word w
  operator : ∀ {op w}, v.operator op = .ok w → word w
  logical : ∀ op, word (v.logical op)
  joinKind : ∀ {kind w}, v.joinKind kind = .ok w → word w
  sortOrder : ∀ order, word (v.sortOrder order)
  null : word v.null
  insertMode : ∀ {mode w}, v.insertMode mode = .ok w → word w
  upsert : word v.upsert
  function : ∀ {name w}, function name → v.function name = .ok w → function w

theorem Vocabulary.spells_any (v : Vocabulary) : v.Spells (fun _ => True) (fun _ => True) := by
  constructor <;> simp

namespace Statement

open Piece (Within AllWithin Formed)

variable {v : Vocabulary} {s : Scope} {allowed : Piece → Prop} {word function : String → Prop}
  {pieces : List Piece}

/-! ## Fields -/

mutual

theorem field_formed (hv : v.Spells word function)
    (hs : ∀ {piece : Piece}, piece.Plain → piece.Within s → allowed piece) : (f : Field) →
    f.Verbatim word function → {pieces : List Piece} → field v s f = .ok pieces →
    Formed allowed word function pieces
  | .named name, _, pieces, h => by
      cases h
      exact .plain (s.resolve_plain name) (hs (s.resolve_plain name) (s.resolve_within name))
  | .function name args, hf, pieces, h => by
      obtain ⟨hname, hargs⟩ := hf
      obtain ⟨w, hw, parts, hparts, rfl⟩ := field_function_ok.mp h
      have hcomma := hv.keyword ", " (by decide)
      exact .call (hv.function hname hw) (.separated hcomma (fields_formed hv hs args hargs hparts))
  | .raw text, hf, pieces, h => by
      cases h
      exact .word hf
termination_by structural x => x

theorem fields_formed (hv : v.Spells word function)
    (hs : ∀ {piece : Piece}, piece.Plain → piece.Within s → allowed piece) :
    (fs : List Field) → Field.AllVerbatim word function fs → {parts : List (List Piece)} →
    fields v s fs = .ok parts → ∀ part ∈ parts, Formed allowed word function part
  | [], _, parts, h => by
      cases h
      simp
  | f :: rest, hf, parts, h => by
      obtain ⟨hfirst, hrest⟩ := hf
      obtain ⟨part, hpart, others, hothers, rfl⟩ := fields_cons_ok.mp h
      exact List.forall_mem_cons.mpr
        ⟨field_formed hv hs f hfirst hpart, fields_formed hv hs rest hrest hothers⟩
termination_by structural x => x

end

/-! ## Clauses that verbs share -/

variable (hv : v.Spells word function)
  (hs : ∀ {piece : Piece}, piece.Plain → piece.Within s → allowed piece)

include hv hs

theorem joinClause_formed (h : joinClause v s = .ok pieces) :
    Formed allowed word function pieces := by
  cases hjoin : s.join with
  | none =>
      rw [joinClause_none hjoin] at h
      cases h
      exact .nil
  | some joined =>
      obtain ⟨join, a⟩ := joined
      obtain ⟨w, hw, rfl⟩ := (joinClause_some_ok hjoin).mp h
      have hsource := s.mem_references_of_join hjoin
      have hjoined : Formed allowed word function
          [Scope.tableColumn join.table a join.joinField] :=
        .plain trivial (hs trivial (List.mem_map_of_mem hsource))
      have hequals := Formed.word_cons (hv.keyword "=" (by decide)) hjoined
      have hmain := s.mainColumn_plain join.mainField
      have hcolumns := Formed.plain_cons hmain (hs hmain (s.mainColumn_within join.mainField))
        hequals
      have hon := Formed.word_cons (hv.keyword "ON" (by decide)) hcolumns
      exact .word_cons (hv.joinKind hw) (.plain_cons trivial (hs trivial hsource) hon)

theorem groupByClause_formed {groupBy : List Field} (hg : Field.AllVerbatim word function groupBy)
    (h : groupByClause v s groupBy = .ok pieces) : Formed allowed word function pieces := by
  obtain ⟨parts, hparts, rfl⟩ := groupByClause_ok.mp h
  split
  · exact .nil
  · have hfields := Formed.separated (hv.keyword ", " (by decide))
      (fields_formed hv hs groupBy hg hparts)
    exact .word_cons (hv.keyword "GROUP BY" (by decide)) hfields

theorem orderings_formed {entries : List OrderBy} {parts : List (List Piece)}
    (ho : Field.AllVerbatim word function (entries.map OrderBy.field))
    (h : orderings v s entries = .ok parts) :
    ∀ part ∈ parts, Formed allowed word function part := by
  induction entries generalizing parts with
  | nil =>
      cases h
      simp
  | cons entry rest ih =>
      obtain ⟨hentry, hrest⟩ := ho
      obtain ⟨part, hpart, others, hothers, rfl⟩ := orderings_cons_ok.mp h
      obtain ⟨written, hwritten, rfl⟩ := ordering_ok.mp hpart
      have hfield := field_formed hv hs entry.field hentry hwritten
      have hdirection : Formed allowed word function
          (entry.direction.toList.map fun o => .word (v.sortOrder o)) := by
        cases entry.direction with
        | none => exact .nil
        | some direction => exact .word (hv.sortOrder direction)
      exact List.forall_mem_cons.mpr ⟨hfield.append hdirection, ih hrest hothers⟩

theorem orderByClause_formed {orderBy : List OrderBy}
    (ho : Field.AllVerbatim word function (orderBy.map OrderBy.field))
    (h : orderByClause v s orderBy = .ok pieces) : Formed allowed word function pieces := by
  obtain ⟨parts, hparts, rfl⟩ := orderByClause_ok.mp h
  split
  · exact .nil
  · have hentries := Formed.separated (hv.keyword ", " (by decide))
      (orderings_formed hv hs ho hparts)
    exact .word_cons (hv.keyword "ORDER BY" (by decide)) hentries

omit hv hs in
theorem countClause_formed {w : String} (hslot : ∀ value, allowed (.slot value)) (hw : word w)
    (n : Option Int64) : Formed allowed word function (countClause w n) := by
  cases n with
  | none => exact .nil
  | some n => exact .word_cons hw (.plain trivial (hslot (.int n)))

/-! ## Verbs -/

theorem assignments_formed (column : String → Piece) (hplain : ∀ name, (column name).Plain)
    (hcolumn : ∀ name, (column name).Within s) (entries : List (String × Value)) :
    Formed allowed word function (Piece.separated ", "
      (entries.map fun (name, value) => assignment (column name) value)) := by
  refine .separated (hv.keyword ", " (by decide)) fun part hpart => ?_
  obtain ⟨⟨name, value⟩, -, rfl⟩ := List.mem_map.mp hpart
  have hvalue : Formed allowed word function [.slot value] := .plain trivial (hs trivial trivial)
  have hequals := Formed.word_cons (hv.keyword "=" (by decide)) hvalue
  exact .plain_cons (hplain name) (hs (hplain name) (hcolumn name)) hequals

theorem upsertClause_formed (upsert : Option Upsert) (columns : List String) :
    Formed allowed word function (upsertClause v upsert columns) := by
  rcases upsert with _ | _ | assignments
  · exact .nil
  · have hcomma := hv.keyword ", " (by decide)
    refine .word_cons hv.upsert (.separated hcomma fun part hpart => ?_)
    obtain ⟨column, -, rfl⟩ := List.mem_map.mp hpart
    have hproposed : Formed allowed word function [.proposed column] :=
      .plain trivial (hs trivial trivial)
    have hequals := Formed.word_cons (hv.keyword "=" (by decide)) hproposed
    exact .plain_cons trivial (hs trivial trivial) hequals
  · exact .word_cons hv.upsert
      (assignments_formed hv hs .name (fun _ => trivial) (fun _ => trivial) _)

omit hs in
/-- Single pieces with commas between them, between brackets. -/
theorem singles_formed {α : Type} (piece : α → Piece) (hplain : ∀ a, (piece a).Plain)
    (hallowed : ∀ a, allowed (piece a)) (as : List α) :
    Formed allowed word function
      (Piece.bracketed (Piece.separated ", " (as.map fun a => [piece a]))) := by
  refine .bracketed (.separated (hv.keyword ", " (by decide)) fun part hpart => ?_)
  obtain ⟨a, -, rfl⟩ := List.mem_map.mp hpart
  exact .plain (hplain a) (hallowed a)

theorem insertClause_formed {rows : List Row} {mode : InsertMode} {upsert : Option Upsert}
    (h : insertClause v s rows mode upsert = .ok pieces) :
    Formed allowed word function pieces := by
  cases rows with
  | nil => cases h
  | cons first rest =>
      obtain ⟨-, -, w, hw, -, rfl⟩ := insertClause_ok.mp h
      have hnames : Formed allowed word function (Piece.bracketed (Piece.separated ", "
          (first.columns.map fun column => [.name column]))) :=
        singles_formed hv .name (fun _ => trivial) (fun _ => hs trivial trivial) first.columns
      have htuples : Formed allowed word function (Piece.separated ", "
          ((first :: rest).map (tuple first.columns))) := by
        refine .separated (hv.keyword ", " (by decide)) fun part hpart => ?_
        obtain ⟨row, -, rfl⟩ := List.mem_map.mp hpart
        exact singles_formed hv .slot (fun _ => trivial) (fun _ => hs trivial trivial)
          (row.cells first.columns)
      have hvalues := Formed.word_cons (hv.keyword "VALUES" (by decide))
        (htuples.append (upsertClause_formed hv hs upsert first.columns))
      have htable : Piece.Plain (.table s.table) := trivial
      have hrest := Formed.plain_cons htable (hs htable rfl) (hnames.append hvalues)
      exact .word_cons (hv.insertMode hw) hrest

theorem verbClause_formed {action : Option Action} {upsert : Option Upsert}
    (ha : ∀ a, action = some a → a.Verbatim word function)
    (h : verbClause v s action upsert = .ok pieces) : Formed allowed word function pieces := by
  obtain ⟨a, rfl, -, h⟩ := verbClause_ok.mp h
  have ha := ha a rfl
  have hplain : Piece.Plain (.source s.table s.mainAlias) := trivial
  have hsource := hs hplain s.source_within
  have hkeyword : ∀ w ∈ keywords, word w := hv.keyword
  cases a with
  | select selected =>
      obtain ⟨-, parts, hparts, join, hjoin, rfl⟩ := selectClause_ok.mp h
      have hfields := Formed.separated (hkeyword ", " (by decide))
        (fields_formed hv hs selected ha hparts)
      have hjoin : Formed allowed word function join := joinClause_formed hv hs hjoin
      have hfrom := Formed.word_cons (hkeyword "FROM" (by decide))
        (.plain_cons hplain hsource hjoin)
      exact .word_cons (hkeyword "SELECT" (by decide)) (hfields.append hfrom)
  | update assignments =>
      obtain ⟨-, join, hjoin, rfl⟩ := updateClause_ok.mp h
      have hjoin : Formed allowed word function join := joinClause_formed hv hs hjoin
      have hassignments : Formed allowed word function (Piece.separated ", "
          (assignments.entries.map fun (column, value) =>
            assignment (s.mainColumn column) value)) :=
        assignments_formed hv hs s.mainColumn (fun _ => trivial) s.mainColumn_within
          assignments.entries
      have hset := Formed.word_cons (hkeyword "SET" (by decide)) hassignments
      have hrest := hjoin.append hset
      exact .word_cons (hkeyword "UPDATE" (by decide)) (.plain_cons hplain hsource hrest)
  | insert rows mode => exact insertClause_formed hv hs h
  | delete =>
      obtain ⟨join, hjoin, rfl⟩ := deleteClause_ok.mp h
      have htarget : Formed allowed word function
          (if s.join.isSome then [.target s.mainAlias] else []) := by
        split
        · exact .plain trivial (hs trivial rfl)
        · exact .nil
      have hjoin : Formed allowed word function join := joinClause_formed hv hs hjoin
      have hfrom := Formed.word_cons (hkeyword "FROM" (by decide))
        (.plain_cons hplain hsource hjoin)
      exact .word_cons (hkeyword "DELETE" (by decide)) (htarget.append hfrom)

end Statement

/-! ## Clauses within a scope -/

namespace Statement

open Piece (Within AllWithin)

variable {v : Vocabulary} {s : Scope} {pieces : List Piece}

theorem field_within {f : Field} (h : field v s f = .ok pieces) : AllWithin s pieces :=
  (field_formed v.spells_any (fun _ hwithin => hwithin) f f.verbatim_any h).allWithin

theorem groupByClause_within {groupBy : List Field}
    (h : groupByClause v s groupBy = .ok pieces) : AllWithin s pieces :=
  (groupByClause_formed v.spells_any (fun _ hwithin => hwithin) (Field.allVerbatim_any groupBy)
    h).allWithin

theorem orderByClause_within {orderBy : List OrderBy}
    (h : orderByClause v s orderBy = .ok pieces) : AllWithin s pieces :=
  (orderByClause_formed v.spells_any (fun _ hwithin => hwithin) (Field.allVerbatim_any _)
    h).allWithin

theorem countClause_within (w : String) (n : Option Int64) : AllWithin s (countClause w n) := by
  have hformed : Piece.Formed (Within s) (fun _ => True) (fun _ => True) (countClause w n) :=
    countClause_formed (fun _ => trivial) trivial n
  exact hformed.allWithin

/-- The clause of a verb stays within its scope. -/
theorem verbClause_within {action : Option Action} {upsert : Option Upsert}
    (h : verbClause v s action upsert = .ok pieces) : AllWithin s pieces :=
  (verbClause_formed v.spells_any (fun _ hwithin => hwithin) (fun a _ => a.verbatim_any)
    h).allWithin

end Statement

/-! ## Conditions and queries -/

namespace Compile

open Statement
open Piece (Formed)

variable {v : Vocabulary} {word function : String → Prop}

theorem comparison_formed (hv : v.Spells word function) {s : Scope} {f : Field} {op : Operator}
    {x : Operand} {supply after : AliasSupply} {pieces : List Piece}
    (hf : f.Verbatim word function)
    (hx : ∀ {right}, (operand v x).runFrom supply = (.ok right, after) →
      Formed (fun _ => True) word function right)
    (h : (comparison v s f op (operand v x)).runFrom supply = (.ok pieces, after)) :
    Formed (fun _ => True) word function pieces := by
  obtain ⟨w, hw, left, hleft, right, hright, rfl⟩ := comparison_ok.mp h
  have hoperator := Formed.word_cons (hv.operator hw) (hx hright)
  exact .bracketed ((field_formed hv (fun _ _ => trivial) f hf hleft).append hoperator)

mutual

theorem operand_formed (hv : v.Spells word function) : (x : Operand) →
    x.Verbatim word function → {supply after : AliasSupply} →
    {pieces : List Piece} → (operand v x).runFrom supply = (.ok pieces, after) →
    Formed (fun _ => True) word function pieces
  | .literal value, _, supply, after, pieces, h => by
      cases h
      exact .plain trivial trivial
  | .list values, _, supply, after, pieces, h => by
      obtain ⟨-, rfl, -⟩ := operand_list_ok.mp h
      refine .bracketed (.separated (hv.keyword "," (by decide)) fun part hpart => ?_)
      obtain ⟨value, -, rfl⟩ := List.mem_map.mp hpart
      exact .plain trivial trivial
  | .null, _, supply, after, pieces, h => by
      cases h
      exact .word hv.null
  | .subquery q, hx, supply, after, pieces, h => by
      obtain ⟨body, hbody, rfl⟩ := operand_subquery_ok.mp h
      exact .nested trivial (query_formed hv q hx hbody)
termination_by structural x => x

theorem condition_formed (hv : v.Spells word function) : (c : Condition) →
    c.Verbatim word function → {s : Scope} → {supply after : AliasSupply} →
    {pieces : List Piece} → (condition v s c).runFrom supply = (.ok pieces, after) →
    Formed (fun _ => True) word function pieces
  | .compare f op x, hc, s, supply, after, pieces, h => by
      obtain ⟨hf, hx⟩ := hc
      rw [condition] at h
      exact comparison_formed hv hf (operand_formed hv x hx) h
  | .spec spec x, hc, s, supply, after, pieces, h => by
      obtain ⟨hspec, hx⟩ := hc
      obtain ⟨f, op, hparse, h⟩ := condition_spec_ok.mp h
      exact comparison_formed hv (hspec f op hparse) (operand_formed hv x hx) h
  | .group op conditions, hc, s, supply, after, pieces, h => by
      obtain ⟨-, parts, hparts, rfl⟩ := condition_group_ok.mp h
      exact .separated (hv.logical op) (children_formed hv conditions hc hparts)
termination_by structural x => x

theorem children_formed (hv : v.Spells word function) : (conditions : List Condition) →
    Condition.AllVerbatim word function conditions → {s : Scope} →
    {supply after : AliasSupply} → {parts : List (List Piece)} →
    (children v s conditions).runFrom supply = (.ok parts, after) →
    ∀ part ∈ parts, Formed (fun _ => True) word function part
  | [], _, s, supply, after, parts, h => by
      cases h
      simp
  | c :: rest, hc, s, supply, after, parts, h => by
      obtain ⟨hfirst, hrest⟩ := hc
      obtain ⟨part, between, hpart, others, hothers, rfl⟩ := children_cons_ok.mp h
      have hformed := condition_formed hv c hfirst hpart
      have hchild : Formed (fun _ => True) word function
          (if c.isGroup then Piece.bracketed part else part) := by
        split
        · exact hformed.bracketed
        · exact hformed
      exact List.forall_mem_cons.mpr ⟨hchild, children_formed hv rest hrest hothers⟩
termination_by structural x => x

theorem conditionClause_formed (hv : v.Spells word function) {keyword : String}
    (hkeyword : word keyword) : (c : Option Condition) →
    Condition.OptionVerbatim word function c → {s : Scope} →
    {supply after : AliasSupply} → {pieces : List Piece} →
    (conditionClause v s keyword c).runFrom supply = (.ok pieces, after) →
    Formed (fun _ => True) word function pieces
  | none, _, s, supply, after, pieces, h => by
      cases h
      exact .nil
  | some c, hc, s, supply, after, pieces, h => by
      obtain ⟨part, hpart, rfl⟩ := conditionClause_some_ok.mp h
      exact .word_cons hkeyword (condition_formed hv c hc hpart)
termination_by structural x => x

/-- A query is lowered to words of the vocabulary, raw texts and plain pieces, put together as
pieces are. -/
theorem query_formed (hv : v.Spells word function) : (q : Query) →
    q.Verbatim word function → {supply after : AliasSupply} →
    {pieces : List Piece} → (query v q).runFrom supply = (.ok pieces, after) →
    Formed (fun _ => True) word function pieces
  | ⟨action, table, join, filter, having, orderBy, groupBy, limit, offset, upsert⟩, hq, supply,
    after, pieces, h => by
      obtain ⟨haction, hwhere, hgroupBy, hhad, hordered⟩ := hq
      obtain ⟨s, entered, verb, filterPart, filtered, groupPart, havingPart, orderPart, -, hverb,
        hfilter, hgroup, hhaving, horder, rfl⟩ := query_ok.mp h
      have hkeyword : ∀ w ∈ keywords, word w := hv.keyword
      have hverb := verbClause_formed hv (fun _ _ => trivial) haction hverb
      have hfilter := conditionClause_formed hv (hkeyword "WHERE" (by decide)) filter
        hwhere hfilter
      have hgroup := groupByClause_formed hv (fun _ _ => trivial) hgroupBy hgroup
      have hhaving := conditionClause_formed hv (hkeyword "HAVING" (by decide)) having
        hhad hhaving
      have horder := orderByClause_formed hv (fun _ _ => trivial) hordered horder
      have hoffset : Formed (fun _ => True) word function (offsetClause offset) :=
        countClause_formed (fun _ => trivial) (hkeyword "OFFSET" (by decide)) offset
      have hlimit : Formed (fun _ => True) word function (limitClause limit) :=
        countClause_formed (fun _ => trivial) (hkeyword "LIMIT" (by decide)) limit
      exact (((((hverb.append hfilter).append hgroup).append hhaving).append horder).append
        hoffset).append hlimit
termination_by structural x => x

end

end Compile

/-- The text of a query and its arguments are those of the pieces it is lowered to. -/
theorem Query.toSql_ok {d : Dialect} {q : Query} {text : String} {args : List Value} :
    q.toSql d = .ok (text, args) ↔
      ∃ pieces after, (Compile.query d.toVocabulary q).runFrom {} = (.ok pieces, after) ∧
        text = Token.join (Piece.tokens d pieces) ∧ args = Piece.args d pieces := by
  rw [toSql, compile, lower]
  rcases (Compile.query d.toVocabulary q).runFrom {} with ⟨e | pieces, ended⟩
  · simp [Except.map]
  · constructor
    · intro h
      obtain ⟨rfl, rfl⟩ : Clause.sql (Clause.ofPieces d pieces) = text ∧
          (Clause.ofPieces d pieces).args = args := by
        simpa [Except.map] using h
      exact ⟨pieces, ended, rfl, rfl, rfl⟩
    · rintro ⟨_, _, h, rfl, rfl⟩
      cases h
      rfl

end BoundSql

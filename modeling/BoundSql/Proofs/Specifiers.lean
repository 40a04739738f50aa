import BoundSql.Proofs.Texts

/-! # The grammar of specifiers

A specifier is a column, perhaps a function, and the key of an operator, with two underscores
between every two of them. A name that ends with an underscore cannot stand before another part,
because the first two of a run of underscores are the separator. -/

namespace BoundSql.Specifier

/-- What stands between the parts. -/
def separator : List Char :=
  ['_', '_']

/-- A separator behind the part is the first one of the text. -/
def Inner (part : List Char) : Prop :=
  ¬separator <:+: part ++ ['_']

variable {c : Char} {p q s : List Char} {ps : List (List Char)}

theorem inner_nil : Inner [] :=
  (by decide : ¬separator <:+: ['_'])

/-- Only a character before it can make the part unfit. -/
theorem inner_cons_iff : Inner (c :: p) ↔ ¬separator <+: c :: (p ++ ['_']) ∧ Inner p := by
  rw [Inner, Inner, List.cons_append, List.infix_cons_iff, not_or]

theorem inner_iff : Inner p ↔ ¬separator <:+: p ∧ p.getLast? ≠ some '_' := by
  have hsuffix : separator <:+ p ++ ['_'] ↔ p.getLast? = some '_' := by
    rw [List.getLast?_eq_some_iff]
    constructor
    · rintro ⟨t, ht⟩
      have hconcat : p ++ ['_'] = (t ++ ['_']) ++ ['_'] := by simpa [separator] using ht.symm
      exact ⟨t, List.append_cancel_right hconcat⟩
    · rintro ⟨t, rfl⟩
      exact ⟨t, by simp [separator]⟩
  rw [Inner, List.infix_concat_iff, not_or, hsuffix, and_comm]

/-- The separator behind a part is not found earlier. -/
theorem Inner.not_prefix (h : Inner (c :: p)) : ¬separator <+: c :: (p ++ separator ++ s) := by
  intro hpre
  have hfits : c :: (p ++ ['_']) <+: c :: (p ++ separator ++ s) := ⟨'_' :: s, by simp [separator]⟩
  have hlength : separator.length ≤ (c :: (p ++ ['_'])).length := by simp [separator]
  exact (inner_cons_iff.mp h).1 (List.prefix_of_prefix_length_le hpre hfits hlength)

/-! ## Cutting a text at its separators -/

/-- The text, cut at the first separator, then at the first one behind it, and so on. -/
inductive Cut : List Char → List (List Char) → Prop where
  | last {p : List Char} (h : ¬separator <:+: p) : Cut p [p]
  | cons {p s : List Char} {ps : List (List Char)} (hp : Inner p) (h : Cut s ps) :
      Cut (p ++ separator ++ s) (p :: ps)

theorem cut_singleton_iff : Cut s [p] ↔ s = p ∧ ¬separator <:+: p := by
  constructor
  · intro h
    cases h with
    | last h => exact ⟨rfl, h⟩
    | cons _ h => cases h
  · rintro ⟨rfl, h⟩
    exact .last h

theorem cut_cons_iff :
    Cut s (p :: q :: ps) ↔ ∃ rest, s = p ++ separator ++ rest ∧ Inner p ∧ Cut rest (q :: ps) := by
  constructor
  · intro h
    cases h with
    | cons hp h => exact ⟨_, rfl, hp, h⟩
  · rintro ⟨rest, rfl, hp, h⟩
    exact .cons hp h

theorem splitFrom_cons (part : List Char) (h : ¬separator <+: c :: s) :
    splitFrom part (c :: s) = splitFrom (c :: part) s := by
  apply splitFrom.eq_2
  rintro rest rfl rfl
  exact h ⟨rest, rfl⟩

theorem splitFrom_last (part : List Char) (h : ¬separator <:+: p) :
    splitFrom part p = [part.reverse ++ p] := by
  induction p generalizing part with
  | nil => simp [splitFrom]
  | cons c p ih =>
      rw [List.infix_cons_iff, not_or] at h
      rw [splitFrom_cons part h.1, ih (c :: part) h.2]
      simp

theorem splitFrom_inner (part : List Char) (h : Inner p) :
    splitFrom part (p ++ separator ++ s) = (part.reverse ++ p) :: splitFrom [] s := by
  induction p generalizing part with
  | nil => simp [separator, splitFrom]
  | cons c p ih =>
      have hc := h.not_prefix (s := s)
      rw [List.cons_append, List.cons_append, splitFrom_cons part hc,
        ih (c :: part) (inner_cons_iff.mp h).2]
      simp

theorem Cut.parts_eq (h : Cut s ps) : parts s = ps := by
  rw [parts]
  induction h with
  | last h => simpa using splitFrom_last [] h
  | @cons p s ps hp _ ih => simpa [ih] using splitFrom_inner (s := s) [] hp

/-- The first of the separators of a text. -/
theorem exists_inner (h : separator <:+: s) : ∃ p rest, s = p ++ separator ++ rest ∧ Inner p := by
  induction s with
  | nil => exact absurd h (by decide)
  | cons c s ih =>
      by_cases hpre : separator <+: c :: s
      · obtain ⟨rest, hrest⟩ := hpre
        exact ⟨[], rest, hrest.symm, inner_nil⟩
      · obtain ⟨p, rest, rfl, hp⟩ := ih ((List.infix_cons_iff.mp h).resolve_left hpre)
        refine ⟨c :: p, rest, rfl, inner_cons_iff.mpr ⟨fun hc => hpre ?_, hp⟩⟩
        exact hc.trans ⟨'_' :: rest, by simp [separator]⟩

/-- Induction on the length: what stands behind the first separator is shorter. -/
theorem exists_cut (s : List Char) : ∃ ps, Cut s ps := by
  by_cases h : separator <:+: s
  · obtain ⟨p, rest, hs, hp⟩ := exists_inner h
    have hshorter : rest.length < s.length := by
      simp [hs, separator]
      omega
    obtain ⟨ps, hps⟩ := exists_cut rest
    exact ⟨p :: ps, hs ▸ .cons hp hps⟩
  · exact ⟨[s], .last h⟩
termination_by s.length

theorem parts_eq_iff : parts s = ps ↔ Cut s ps := by
  constructor
  · rintro rfl
    obtain ⟨ps, hps⟩ := exists_cut s
    rwa [hps.parts_eq]
  · exact Cut.parts_eq

/-! ## Reading with combinators -/

/-- A way to read something at the front of a text: what is read, and what is left. -/
abbrev Reader (α : Type) := List Char → Option (α × List Char)

namespace Reader

variable {α β : Type}

/-- Reads the text itself. -/
def mark (text : List Char) : Reader (List Char) := fun s =>
  if text <+: s then some (text, s.drop text.length) else none

/-- Reads up to the first place where the text stands; fails if it stands nowhere. -/
def upTo (text : List Char) : Reader (List Char)
  | [] => if text <+: [] then some ([], []) else none
  | c :: s =>
    if text <+: c :: s then some ([], c :: s)
    else (upTo text s).map fun (part, left) => (c :: part, left)

/-- Reads all there is. -/
def rest : Reader (List Char) := fun s =>
  some (s, [])

/-- Reads with the second reader where the first one fails. -/
def orElse (first second : Reader α) : Reader α := fun s =>
  (first s).or (second s)

/-- Fails also where what is read does not pass the check. -/
def verify (check : α → Bool) (item : Reader α) : Reader α := fun s =>
  (item s).filter fun (a, _) => check a

/-- Reads items, a separator before each of them. A separator with no item behind it is left. To
read a separator and an item without getting on is a failure. -/
def behind (between : Reader β) (item : Reader α) (s : List Char) :
    Option (List α × List Char) :=
  match (between s).bind fun (_, after) => item after with
  | none => some ([], s)
  | some (a, left) =>
    if left.length < s.length then
      (behind between item left).map fun (as, last) => (a :: as, last)
    else none
termination_by s.length

/-- Reads one item or more, a separator between every two of them. -/
def separated (between : Reader β) (item : Reader α) : Reader (List α) := fun s =>
  (item s).bind fun (a, left) =>
    (behind between item left).map fun (as, last) => (a :: as, last)

/-- What is read if nothing is left. -/
def whole (read : Option (α × List Char)) : Option α :=
  read.bind fun (a, left) => if left.isEmpty then some a else none

end Reader

open Reader in
/-- A part that is not empty, up to the next separator or to the end of the text. -/
def segment : Reader (List Char) :=
  verify (fun part => !part.isEmpty) (orElse (upTo separator) rest)

open Reader in
/-- The parts of the whole text. -/
def segments (s : List Char) : Option (List (List Char)) :=
  whole (separated (mark separator) segment s)

/-- The field and the operator that the parts of a specifier name. -/
def readSpecifier (spec : String) : Except QueryError (Field × Operator) :=
  match segments spec.toList with
  | some [column, key] =>
    .ok (.named (String.ofList column), Operator.ofKey (String.ofList key))
  | some [column, function, key] =>
    .ok (.function (String.ofList function) [.named (String.ofList column)],
      Operator.ofKey (String.ofList key))
  | _ => .error (.malformedSpecifier spec)

theorem mark_append (text s : List Char) : Reader.mark text (text ++ s) = some (text, s) := by
  simp [Reader.mark]

theorem upTo_last (h : ¬separator <:+: p) : Reader.upTo separator p = none := by
  induction p with
  | nil => simp [Reader.upTo, separator]
  | cons c p ih =>
      rw [List.infix_cons_iff, not_or] at h
      rw [Reader.upTo, if_neg h.1, ih h.2, Option.map_none]

theorem upTo_inner (h : Inner p) :
    Reader.upTo separator (p ++ separator ++ s) = some (p, separator ++ s) := by
  induction p with
  | nil => simp [Reader.upTo, separator]
  | cons c p ih =>
      have hc := h.not_prefix (s := s)
      rw [List.cons_append, List.cons_append, Reader.upTo, if_neg hc, ih (inner_cons_iff.mp h).2,
        Option.map_some]

theorem segment_last (h : ¬separator <:+: p) :
    segment p = if p.isEmpty then none else some (p, []) := by
  cases p <;> simp [segment, Reader.verify, Reader.orElse, Reader.rest, upTo_last h]

theorem segment_inner (h : Inner p) :
    segment (p ++ separator ++ s) = if p.isEmpty then none else some (p, separator ++ s) := by
  have hread := upTo_inner h (s := s)
  cases p <;> simp_all [segment, Reader.verify, Reader.orElse]

theorem whole_map {α β : Type} (f : α → β) (read : Option (α × List Char)) :
    Reader.whole (read.map fun (a, left) => (f a, left)) = (Reader.whole read).map f := by
  cases read with
  | none => rfl
  | some found => cases h : found.2 <;> simp [Reader.whole, h]

/-- The parts that stand behind a separator, one or more, and nothing behind them. -/
def segmentsBehind (s : List Char) : Option (List (List Char)) :=
  Reader.whole (Reader.behind (Reader.mark separator) segment s)

theorem segmentsBehind_nil : segmentsBehind [] = some [] := by
  rw [segmentsBehind, Reader.behind]
  rfl

theorem segmentsBehind_append (hsegment : segment s = if p.isEmpty then none else some (p, q))
    (hq : q.length ≤ s.length) :
    segmentsBehind (separator ++ s) =
      if p.isEmpty then none else (segmentsBehind q).map (p :: ·) := by
  have hshorter : q.length < (separator ++ s).length := by
    simp [separator]
    omega
  simp only [segmentsBehind]
  rw [Reader.behind, mark_append, Option.bind_some]
  by_cases hp : p.isEmpty
  · simp [hsegment, hp, Reader.whole, separator]
  · simp only [hsegment, if_neg hp, if_pos hshorter]
    exact whole_map (p :: ·) _

theorem segments_of_segment (hsegment : segment s = if p.isEmpty then none else some (p, q)) :
    segments s = if p.isEmpty then none else (segmentsBehind q).map (p :: ·) := by
  rw [segments, Reader.separated, hsegment]
  by_cases hp : p.isEmpty
  · simp [hp, Reader.whole]
  · simp only [if_neg hp, Option.bind_some]
    exact whole_map (p :: ·) _

theorem Cut.segmentsBehind_eq (h : Cut s ps) :
    segmentsBehind (separator ++ s) = if ps.any List.isEmpty then none else some ps := by
  induction h with
  | @last p h =>
      rw [segmentsBehind_append (segment_last h) (by simp), segmentsBehind_nil]
      simp
  | @cons p s ps hp h ih =>
      rw [segmentsBehind_append (segment_inner hp) (by simp), ih, List.any_cons]
      cases p.isEmpty <;> cases ps.any List.isEmpty <;> rfl

/-- The combinators find the parts of a text if none of them is empty. -/
theorem Cut.segments_eq (h : Cut s ps) :
    segments s = if ps.any List.isEmpty then none else some ps := by
  cases h with
  | last h =>
      rw [segments_of_segment (segment_last h), segmentsBehind_nil]
      simp
  | @cons p s ps hp h =>
      rw [segments_of_segment (segment_inner hp), h.segmentsBehind_eq, List.any_cons]
      cases p.isEmpty <;> cases ps.any List.isEmpty <;> rfl

theorem segments_eq (s : List Char) :
    segments s = if (parts s).any List.isEmpty then none else some (parts s) :=
  (parts_eq_iff.mp rfl).segments_eq

theorem parse_eq_readSpecifier (spec : String) : parse spec = readSpecifier spec := by
  rw [parse, readSpecifier, parse?, segments_eq]
  rcases parts spec.toList with _ | ⟨column, _ | ⟨second, _ | ⟨third, _ | ⟨fourth, rest⟩⟩⟩⟩
  · rfl
  · cases column <;> rfl
  · cases column <;> cases second <;> rfl
  · cases column <;> cases second <;> cases third <;> rfl
  · cases (column :: second :: third :: fourth :: rest).any List.isEmpty <;> rfl

/-! ## The grammar -/

/-- A part of a specifier is not empty, and no separator stands in it. -/
structure IsPart (part : String) : Prop where
  ne_empty : part ≠ ""
  free : ¬"__".toList <:+: part.toList

/-- A part with another one behind it does not end with an underscore. -/
structure IsInner (part : String) : Prop extends IsPart part where
  getLast_ne : part.toList.getLast? ≠ some '_'

/-- The text is made of the parts. -/
inductive Decomposes : String → List String → Prop where
  | two {column key : String} (hcolumn : IsInner column) (hkey : IsPart key) :
      Decomposes (column ++ "__" ++ key) [column, key]
  | three {column function key : String} (hcolumn : IsInner column) (hfunction : IsInner function)
      (hkey : IsPart key) :
      Decomposes (column ++ "__" ++ function ++ "__" ++ key) [column, function, key]

theorem isInner_iff {part : String} : IsInner part ↔ part ≠ "" ∧ Inner part.toList := by
  rw [inner_iff]
  constructor
  · rintro ⟨⟨hempty, hfree⟩, hlast⟩
    exact ⟨hempty, hfree, hlast⟩
  · rintro ⟨hempty, hfree, hlast⟩
    exact ⟨⟨hempty, hfree⟩, hlast⟩

theorem isPart_iff {part : String} : IsPart part ↔ part ≠ "" ∧ ¬separator <:+: part.toList :=
  ⟨fun h => ⟨h.ne_empty, h.free⟩, fun h => ⟨h.1, h.2⟩⟩

variable {spec column function key : String}

theorem decomposes_two_iff :
    Decomposes spec [column, key] ↔
      Cut spec.toList [column.toList, key.toList] ∧ column ≠ "" ∧ key ≠ "" := by
  constructor
  · intro h
    cases h with
    | two hcolumn hkey =>
        rw [isInner_iff] at hcolumn
        rw [String.toList_append, String.toList_append]
        exact ⟨.cons hcolumn.2 (.last hkey.free), hcolumn.1, hkey.ne_empty⟩
  · rintro ⟨hcut, hcolumn, hkey⟩
    obtain ⟨rest, hspec, hinner, hlast⟩ := cut_cons_iff.mp hcut
    obtain ⟨rfl, hfree⟩ := cut_singleton_iff.mp hlast
    obtain rfl : spec = column ++ "__" ++ key := by
      rw [← String.toList_inj, hspec, String.toList_append, String.toList_append]
      rfl
    exact .two (isInner_iff.mpr ⟨hcolumn, hinner⟩) (isPart_iff.mpr ⟨hkey, hfree⟩)

theorem decomposes_three_iff :
    Decomposes spec [column, function, key] ↔
      Cut spec.toList [column.toList, function.toList, key.toList] ∧
        column ≠ "" ∧ function ≠ "" ∧ key ≠ "" := by
  constructor
  · intro h
    cases h with
    | three hcolumn hfunction hkey =>
        rw [isInner_iff] at hcolumn hfunction
        have hbehind := Cut.cons hfunction.2 (.last hkey.free)
        have hcut := Cut.cons hcolumn.2 hbehind
        rw [← List.append_assoc, ← List.append_assoc] at hcut
        simp only [String.toList_append]
        exact ⟨hcut, hcolumn.1, hfunction.1, hkey.ne_empty⟩
  · rintro ⟨hcut, hcolumn, hfunction, hkey⟩
    obtain ⟨rest, hspec, hinner, hbehind⟩ := cut_cons_iff.mp hcut
    obtain ⟨rest, rfl, hinner', hlast⟩ := cut_cons_iff.mp hbehind
    obtain ⟨rfl, hfree⟩ := cut_singleton_iff.mp hlast
    obtain rfl : spec = column ++ "__" ++ function ++ "__" ++ key := by
      rw [← String.toList_inj, hspec]
      simp only [String.toList_append, List.append_assoc]
      rfl
    exact .three (isInner_iff.mpr ⟨hcolumn, hinner⟩) (isInner_iff.mpr ⟨hfunction, hinner'⟩)
      (isPart_iff.mpr ⟨hkey, hfree⟩)

/-- The parts in a grammatical decomposition are those that cutting finds. -/
theorem Decomposes.map_toList_eq {names : List String} (h : Decomposes spec names) :
    names.map String.toList = parts spec.toList := by
  symm
  rw [parts_eq_iff]
  cases h with
  | two hcolumn hkey => exact (decomposes_two_iff.mp (.two hcolumn hkey)).1
  | three hcolumn hfunction hkey =>
      exact (decomposes_three_iff.mp (.three hcolumn hfunction hkey)).1

theorem Decomposes.unique {names others : List String} (h : Decomposes spec names)
    (hothers : Decomposes spec others) : names = others := by
  have hmap : names.map String.toList = others.map String.toList := by
    rw [h.map_toList_eq, hothers.map_toList_eq]
  exact List.map_injective_iff.mpr (fun _ _ => String.toList_inj.mp) hmap

theorem parse_two (h : Decomposes spec [column, key]) :
    parse spec = .ok (.named column, .ofKey key) := by
  obtain ⟨hcut, hcolumn, hkey⟩ := decomposes_two_iff.mp h
  simp [parse, parse?, hcut.parts_eq, hcolumn, hkey]

theorem parse_three (h : Decomposes spec [column, function, key]) :
    parse spec = .ok (.function function [.named column], .ofKey key) := by
  obtain ⟨hcut, hcolumn, hfunction, hkey⟩ := decomposes_three_iff.mp h
  simp [parse, parse?, hcut.parts_eq, hcolumn, hfunction, hkey]

/-- A text is made of two parts, or of three, or is refused. -/
theorem decomposes_or_malformed (spec : String) :
    (∃ column key, Decomposes spec [column, key]) ∨
    (∃ column function key, Decomposes spec [column, function, key]) ∨
    parse spec = .error (.malformedSpecifier spec) := by
  cases hfound : parse? spec.toList with
  | none => exact .inr (.inr (by simp [parse, hfound]))
  | some found =>
      rw [parse?] at hfound
      split at hfound
      · next column key hparts =>
        have hcut := parts_eq_iff.mp hparts
        refine .inl ⟨.ofList column, .ofList key, decomposes_two_iff.mpr ?_⟩
        simp_all
      · next column function key hparts =>
        have hcut := parts_eq_iff.mp hparts
        refine .inr (.inl ⟨.ofList column, .ofList function, .ofList key,
          decomposes_three_iff.mpr ?_⟩)
        simp_all
      · cases hfound

/-- What is read is what the parts of the text name. -/
theorem parse_ok_iff {f : Field} {op : Operator} :
    parse spec = .ok (f, op) ↔
      (∃ column key, Decomposes spec [column, key] ∧ f = .named column ∧ op = .ofKey key) ∨
      ∃ column function key, Decomposes spec [column, function, key] ∧
        f = .function function [.named column] ∧ op = .ofKey key := by
  constructor
  · intro h
    rcases decomposes_or_malformed spec with ⟨column, key, hparts⟩ |
      ⟨column, function, key, hparts⟩ | herror
    · cases h.symm.trans (parse_two hparts)
      exact .inl ⟨column, key, hparts, rfl, rfl⟩
    · cases h.symm.trans (parse_three hparts)
      exact .inr ⟨column, function, key, hparts, rfl, rfl⟩
    · cases h.symm.trans herror
  · rintro (⟨column, key, hparts, rfl, rfl⟩ | ⟨column, function, key, hparts, rfl, rfl⟩)
    · exact parse_two hparts
    · exact parse_three hparts

/-- A specifier is read exactly if it is made of two or three parts, which it is in one way at most:
a column and the key of an operator, or a column, a function over it and the key. Every other text
is refused, and the error names it. The combinators read the same. -/
theorem parse_grammar (spec : String) :
    (∀ f op, parse spec = .ok (f, op) ↔
      (∃ column key, Decomposes spec [column, key] ∧ f = .named column ∧ op = .ofKey key) ∨
      ∃ column function key, Decomposes spec [column, function, key] ∧
        f = .function function [.named column] ∧ op = .ofKey key) ∧
    (∀ names others, Decomposes spec names → Decomposes spec others → names = others) ∧
    ((∀ names, ¬Decomposes spec names) → parse spec = .error (.malformedSpecifier spec)) ∧
    parse spec = readSpecifier spec := by
  refine ⟨fun f op => parse_ok_iff, fun names others => Decomposes.unique, ?_,
    parse_eq_readSpecifier spec⟩
  intro hnone
  rcases decomposes_or_malformed spec with ⟨column, key, hparts⟩ |
    ⟨column, function, key, hparts⟩ | herror
  · exact absurd hparts (hnone _)
  · exact absurd hparts (hnone _)
  · exact herror

/-- Of three underscores the last one goes to the operator; between four there is an empty part. -/
example :
    parse "id___eq" = .ok (.named "id", .other "_eq") ∧
      parse "id____eq" = .error (.malformedSpecifier "id____eq") :=
  ⟨rfl, rfl⟩

end BoundSql.Specifier

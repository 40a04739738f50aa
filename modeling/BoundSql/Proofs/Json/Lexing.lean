import BoundSql.Json.Lexeme
import BoundSql.Json.Printer
import BoundSql.Proofs.Digits

/-! # Reading lexemes

Lexemes that are written one after the other are read back, as long as behind every number comes
a mark. Main statement: `Lexeme.Spells.ofChars`. -/

namespace BoundSql.Json

open Text

namespace Numeral

/-! ## Numbers -/

/-- The digits are those that a text can give. -/
structure WellSpelled (n : Numeral) : Prop where
  whole : ∃ value, n.whole = decimalDigits value
  fraction : ∀ c ∈ n.fraction, c.isDigit = true

theorem wellSpelled_ofInt (n : Int) : (ofInt n).WellSpelled :=
  ⟨⟨_, rfl⟩, nofun⟩

/-- No number goes on with this text. -/
def Ends (rest : List Char) : Prop :=
  ∀ c ∈ rest.head?, c.isDigit = false ∧ c ≠ '.' ∧ c ≠ 'e' ∧ c ≠ 'E'

theorem Ends.noDigit {rest : List Char} (h : Ends rest) : NoDigit rest :=
  fun c hc => (h c hc).1

variable {rest : List Char}

theorem noDigit_exponentChars (e : Option Int) (h : NoDigit rest) :
    NoDigit (exponentChars e ++ rest) := by
  cases e with
  | none => exact h
  | some e => exact noDigit_cons.mpr rfl

theorem noDigit_fractionChars (digits : List Char) (h : NoDigit rest) :
    NoDigit (fractionChars digits ++ rest) := by
  cases digits with
  | nil => exact h
  | cons d digits => exact noDigit_cons.mpr rfl

theorem scanWhole_decimalDigits (value : Nat) (h : NoDigit rest) :
    scanWhole (decimalDigits value ++ rest) = some (decimalDigits value, rest) := by
  have hspan := spanDigits_append_of_noDigit (isDigit_of_mem_decimalDigits (n := value)) h
  cases hdigits : decimalDigits value with
  | nil => exact absurd hdigits decimalDigits_ne_nil
  | cons c tail =>
      rw [hdigits] at hspan
      by_cases hc : c = '0'
      · subst hc
        rw [tail_decimalDigits hdigits]
        rfl
      · unfold scanWhole
        split
        · next heq => exact absurd (List.cons.inj heq).1 hc
        · rw [hspan]

theorem scanFraction_fractionChars {digits : List Char} (hdigits : ∀ c ∈ digits, c.isDigit = true)
    (h : NoDigit rest) (hpoint : ∀ c ∈ rest.head?, c ≠ '.') :
    scanFraction (fractionChars digits ++ rest) = some (digits, rest) := by
  cases digits with
  | nil =>
      unfold scanFraction
      split
      · next heq => exact absurd rfl (hpoint '.' (by rw [show rest = _ from heq]; rfl))
      · rfl
  | cons d digits =>
      have hspan := spanDigits_append_of_noDigit hdigits h
      simp only [fractionChars, List.cons_append, scanFraction] at hspan ⊢
      simp only [hspan]

theorem scanPower_decimalDigits (negative : Bool) (size : Nat) (h : NoDigit rest) :
    scanPower negative (decimalDigits size ++ rest) =
      some (some (if negative then -(size : Int) else size), rest) := by
  have hspan := spanDigits_append_of_noDigit (isDigit_of_mem_decimalDigits (n := size)) h
  have hvalue := decimalValue_decimalDigits size
  cases hdigits : decimalDigits size with
  | nil => exact absurd hdigits decimalDigits_ne_nil
  | cons d digits =>
      rw [hdigits] at hspan hvalue
      simp only [scanPower, hspan, hvalue]

theorem scanExponent_exponentChars (e : Option Int) (h : NoDigit rest)
    (hletter : ∀ c ∈ rest.head?, c ≠ 'e' ∧ c ≠ 'E') :
    scanExponent (exponentChars e ++ rest) = some (e, rest) := by
  cases e with
  | none =>
      cases rest with
      | nil => rfl
      | cons c rest =>
          have hc : ¬(c = 'e' ∨ c = 'E') := not_or.mpr (hletter c rfl)
          simp only [exponentChars, List.nil_append, scanExponent, if_neg hc]
  | some e =>
      by_cases he : e < 0
      · have hsize : -(e.natAbs : Int) = e := by omega
        rw [exponentChars, if_pos he]
        exact (scanPower_decimalDigits true e.natAbs h).trans (by rw [if_pos rfl, hsize])
      · have hsize : (e.natAbs : Int) = e := by omega
        rw [exponentChars, if_neg he]
        exact (scanPower_decimalDigits false e.natAbs h).trans
          (by rw [if_neg Bool.false_ne_true, hsize])

theorem scanUnsigned_chars (negative : Bool) (value : Nat) (exponent : Option Int)
    {fraction : List Char} (hfraction : ∀ c ∈ fraction, c.isDigit = true) (h : Ends rest) :
    scanUnsigned negative
        (decimalDigits value ++ (fractionChars fraction ++ (exponentChars exponent ++ rest))) =
      some (⟨negative, decimalDigits value, fraction, exponent⟩, rest) := by
  have hexponent := noDigit_exponentChars exponent h.noDigit
  have hpoint : ∀ c ∈ (exponentChars exponent ++ rest).head?, c ≠ '.' := by
    cases exponent with
    | none => exact fun c hc => (h c hc).2.1
    | some e => simp [exponentChars]
  simp only [scanUnsigned, scanWhole_decimalDigits value (noDigit_fractionChars fraction hexponent),
    scanFraction_fractionChars hfraction hexponent hpoint,
    scanExponent_exponentChars exponent h.noDigit fun c hc => (h c hc).2.2,
    Option.bind_eq_bind, Option.bind_some, Option.pure_def]

/-- A number starts with its sign or with a digit. -/
theorem chars_eq_cons {n : Numeral} (h : n.WellSpelled) :
    ∃ c tail, n.chars = c :: tail ∧ (c = '-' ∨ c.isDigit = true) := by
  obtain ⟨value, hwhole⟩ := h.whole
  obtain ⟨d, digits, hdigits⟩ := List.exists_cons_of_ne_nil (decimalDigits_ne_nil (n := value))
  have hd : d.isDigit = true := isDigit_of_mem_decimalDigits (n := value) d (by simp [hdigits])
  cases hn : n.negative with
  | true => exact ⟨'-', _, by simp only [chars, hn, if_true, List.cons_append]; rfl, .inl rfl⟩
  | false => exact ⟨d, _, by simp [chars, hn, hwhole, hdigits]; rfl, .inr hd⟩

theorem scan_chars {n : Numeral} (hn : n.WellSpelled) (h : Ends rest) :
    scan (n.chars ++ rest) = some (n, rest) := by
  obtain ⟨negative, whole, fraction, exponent⟩ := n
  obtain ⟨⟨value, rfl⟩, hfraction⟩ := hn
  have hunsigned := fun sign => scanUnsigned_chars sign value exponent hfraction h
  cases negative with
  | true => simpa [scan, chars] using hunsigned true
  | false =>
      obtain ⟨d, digits, hdigits⟩ := List.exists_cons_of_ne_nil (decimalDigits_ne_nil (n := value))
      have hd : d ≠ '-' := by
        intro hsign
        have := isDigit_of_mem_decimalDigits (n := value) d (by simp [hdigits])
        simp [hsign] at this
      have hfalse := hunsigned false
      rw [hdigits] at hfalse
      unfold scan
      split
      · next heq => exact absurd (List.cons.inj (by simpa [chars, hdigits] using heq)).1 hd
      · simpa [chars, hdigits] using hfalse

end Numeral

namespace Lexeme

variable {rest : List Char}

/-! ## Strings -/

theorem scanUnits_escaped {e c : Char} (h : escaped? e = some c) :
    scanUnits ('\\' :: e :: rest) =
      (scanUnits rest).map fun (units, after) => (c.toNat :: units, after) := by
  rw [scanUnits.eq_def]
  split
  · next heq => cases heq
  · next heq =>
      -- No single letter is escaped by a u.
      obtain ⟨rfl, -⟩ := List.cons.inj (List.cons.inj heq).2
      cases h
  · next heq =>
      obtain ⟨rfl, rfl⟩ := List.cons.inj (List.cons.inj heq).2
      rw [h]
      cases scanUnits rest <;> rfl
  · next hbackslash heq =>
      obtain ⟨rfl, rfl⟩ := List.cons.inj heq
      exact absurd rfl (hbackslash e rest rfl)
  · next heq => cases heq

theorem scanUnits_escapeChar (c : Char) :
    scanUnits (escapeChar c ++ rest) =
      (scanUnits rest).map fun (units, after) => (c.toNat :: units, after) := by
  unfold escapeChar
  split
  -- A character without a letter of its own is a control character or stands for itself.
  case h_8 hquote hbackslash _ _ _ _ _ =>
    split
    case isTrue hcontrol =>
      have hunit := hexNumber?_hexDigits (Nat.lt_trans hcontrol (by decide))
      simp only [hexDigits, List.nil_append, List.cons_append] at hunit ⊢
      rw [scanUnits, hunit]
      cases scanUnits rest <;> rfl
    case isFalse hcontrol =>
      rw [List.singleton_append, scanUnits.eq_def]
      split
      · next heq => exact absurd (List.cons.inj heq).1 hquote
      · next heq => exact absurd (List.cons.inj heq).1 hbackslash
      · next heq => exact absurd (List.cons.inj heq).1 hbackslash
      · next heq =>
          obtain ⟨rfl, rfl⟩ := List.cons.inj heq
          rw [if_neg hcontrol]
          cases scanUnits rest <;> rfl
      · next heq => cases heq
  all_goals exact scanUnits_escaped rfl

theorem scanUnits_flatMap_escapeChar (cs rest : List Char) :
    scanUnits (cs.flatMap escapeChar ++ '"' :: rest) = some (cs.map Char.toNat, rest) := by
  induction cs with
  | nil => rw [List.flatMap_nil, List.nil_append, scanUnits, List.map_nil]
  | cons c cs ih =>
      rw [List.flatMap_cons, List.append_assoc, scanUnits_escapeChar, ih, Option.map_some,
        List.map_cons]

/-- Characters are no halves of surrogate pairs. -/
theorem decodeUnits_map_toNat (cs : List Char) : decodeUnits (cs.map Char.toNat) = some cs := by
  induction cs with
  | nil => rfl
  | cons c cs ih =>
      have hvalid : c.toNat < 0xD800 ∨ 0xDFFF < c.toNat ∧ c.toNat < 0x110000 := c.valid
      have hlow : isLowSurrogate c.toNat = false := by
        simp only [isLowSurrogate, Bool.and_eq_false_iff, decide_eq_false_iff_not]
        omega
      have hhigh : isHighSurrogate c.toNat = false := by
        simp only [isHighSurrogate, Bool.and_eq_false_iff, decide_eq_false_iff_not]
        omega
      rw [List.map_cons, decodeUnits.eq_def]
      simp [hlow, hhigh, ih, Char.ofNat_toNat]

theorem scan_literalChars (s : Literal) :
    scan (literalChars s ++ rest) = some (string s, rest) := by
  cases s with
  | none => rfl
  | some s =>
      have hunits := scanUnits_flatMap_escapeChar s.toList rest
      simp [literalChars, scan, scanString, hunits, decodeUnits_map_toNat]

/-! ## Lexemes -/

/-- The text of a lexeme. -/
def chars : Lexeme → List Char
  | openArray => ['[']
  | closeArray => [']']
  | openObject => ['\x7b']
  | closeObject => ['\x7d']
  | comma => [',']
  | colon => [':']
  | null => ['n', 'u', 'l', 'l']
  | bool true => ['t', 'r', 'u', 'e']
  | bool false => ['f', 'a', 'l', 's', 'e']
  | number n => n.chars
  | string s => literalChars s

/-- A bracket, a comma or a colon. -/
def isMark : Lexeme → Bool
  | openArray | closeArray | openObject | closeObject | comma | colon => true
  | null | bool _ | number _ | string _ => false

/-- A number has the digits that a text can give. -/
def WellSpelled : Lexeme → Prop
  | number n => n.WellSpelled
  | _ => True

theorem wellSpelled_of_isMark {l : Lexeme} (h : l.isMark = true) : l.WellSpelled := by
  cases l with
  | number n => cases h
  | _ => trivial

/-- A number ends before this text. -/
def EndsBefore (rest : List Char) : Lexeme → Prop
  | number _ => Numeral.Ends rest
  | _ => True

theorem scan_number {c : Char} (hc : c = '-' ∨ c.isDigit = true) :
    scan (c :: rest) = (Numeral.scan (c :: rest)).map fun (n, after) => (number n, after) := by
  have hother : ∀ mark : Char, mark ≠ '-' → mark.isDigit = false → c ≠ mark := by
    rintro mark hsign hdigit rfl
    simp [hsign, hdigit] at hc
  unfold scan
  split
  case h_11 => rfl
  all_goals
    next heq => exact absurd (List.cons.inj heq).1 (hother _ (by decide) (by decide))

theorem scan_chars {l : Lexeme} (hl : l.WellSpelled) (hrest : l.EndsBefore rest) :
    scan (l.chars ++ rest) = some (l, rest) := by
  cases l with
  | number n =>
      obtain ⟨c, tail, hchars, hc⟩ := Numeral.chars_eq_cons hl
      have hscan := Numeral.scan_chars hl hrest
      rw [hchars, List.cons_append] at hscan
      rw [chars, hchars, List.cons_append, scan_number hc, hscan, Option.map_some]
  | string s => exact scan_literalChars s
  | bool b => cases b <;> rfl
  | _ => rfl

/-- No lexeme is empty or starts with a blank. -/
theorem chars_eq_cons {l : Lexeme} (hl : l.WellSpelled) :
    ∃ c tail, l.chars = c :: tail ∧ isSeparator c = false := by
  cases l with
  | number n =>
      obtain ⟨c, tail, hchars, hc⟩ := Numeral.chars_eq_cons hl
      refine ⟨c, tail, hchars, Bool.eq_false_iff.mpr fun hblank => ?_⟩
      simp only [isSeparator, Bool.or_eq_true, beq_iff_eq, or_assoc] at hblank
      rcases hblank with rfl | rfl | rfl | rfl <;> simp at hc
  | string s => cases s <;> exact ⟨'"', _, rfl, rfl⟩
  | bool b => cases b <;> exact ⟨_, _, rfl, rfl⟩
  | _ => exact ⟨_, _, rfl, rfl⟩

/-! ## Sequences of lexemes -/

/-- A number does not run into what follows it. -/
def Precedes (rest : List Lexeme) : Lexeme → Prop
  | number _ => ∀ l ∈ rest.head?, l.isMark = true
  | _ => True

theorem precedes_nil {l : Lexeme} : l.Precedes [] := by
  cases l with
  | number n => exact nofun
  | _ => trivial

theorem precedes_of_isMark {l : Lexeme} {ls : List Lexeme} (h : l.isMark = true) :
    l.Precedes ls := by
  cases l with
  | number n => cases h
  | _ => trivial

/-- Behind every number comes a mark or nothing. -/
def Separated : List Lexeme → Prop
  | [] => True
  | l :: rest => l.Precedes rest ∧ Separated rest

theorem Separated.append {ls ms : List Lexeme} {m : Lexeme} (hls : Separated ls)
    (hm : m.isMark = true) (hms : Separated (m :: ms)) : Separated (ls ++ m :: ms) := by
  induction ls with
  | nil => exact hms
  | cons l ls ih =>
      refine ⟨?_, ih hls.2⟩
      cases l with
      | number n =>
          intro next hnext
          cases ls with
          | nil =>
              cases hnext
              exact hm
          | cons l' ls => exact hls.1 next hnext
      | _ => trivial

theorem ends_of_isMark {l : Lexeme} (h : l.isMark = true) : Numeral.Ends (l.chars ++ rest) := by
  cases l with
  | null | bool _ | number _ | string _ => cases h
  | _ => simp [Numeral.Ends, chars]

theorem Precedes.endsBefore {l : Lexeme} {ls : List Lexeme} (h : l.Precedes ls) :
    l.EndsBefore (ls.flatMap chars) := by
  cases l with
  | number n =>
      cases ls with
      | nil => exact nofun
      | cons m ls => exact ends_of_isMark (h m rfl)
  | _ => trivial

variable {ls : List Lexeme}

theorem scanAll_flatMap_chars (hls : ∀ l ∈ ls, l.WellSpelled) (hsep : Separated ls) {fuel : Nat}
    (hfuel : ls.length < fuel) : scanAll fuel (ls.flatMap chars) = some ls := by
  induction ls generalizing fuel with
  | nil => cases fuel with
    | zero => cases hfuel
    | succ fuel => rfl
  | cons l ls ih =>
      cases fuel with
      | zero => cases hfuel
      | succ fuel =>
          obtain ⟨hl, hls⟩ := List.forall_mem_cons.mp hls
          have hscan := scan_chars hl hsep.1.endsBefore
          have hrest := ih hls hsep.2 (Nat.lt_of_succ_lt_succ hfuel)
          obtain ⟨c, tail, hchars, hblank⟩ := chars_eq_cons hl
          rw [hchars, List.cons_append] at hscan
          rw [List.flatMap_cons, hchars, List.cons_append, scanAll,
            List.dropWhile_cons_of_neg (by simp [hblank])]
          simp only [hscan, hrest, Option.bind_eq_bind, Option.bind_some, Option.pure_def]

theorem length_le_flatMap_chars (hls : ∀ l ∈ ls, l.WellSpelled) :
    ls.length ≤ (ls.flatMap chars).length := by
  induction ls with
  | nil => exact Nat.le_refl 0
  | cons l ls ih =>
      obtain ⟨hl, hls⟩ := List.forall_mem_cons.mp hls
      obtain ⟨c, tail, hchars, -⟩ := chars_eq_cons hl
      have hrest := ih hls
      simp only [List.flatMap_cons, hchars, List.length_append, List.length_cons]
      omega

/-! ## Texts of lexemes -/

/-- The text is that of the lexemes, from which they can be told. -/
structure Spells (cs : List Char) (ls : List Lexeme) : Prop where
  chars_eq : cs = ls.flatMap chars
  wellSpelled : ∀ l ∈ ls, l.WellSpelled
  separated : Separated ls

namespace Spells

variable {cs ds : List Char} {ls ms : List Lexeme}

theorem nil : Spells [] [] :=
  ⟨rfl, nofun, trivial⟩

theorem single (l : Lexeme) (hl : l.WellSpelled) : Spells l.chars [l] where
  chars_eq := by rw [List.flatMap_singleton]
  wellSpelled := List.forall_mem_singleton.mpr hl
  separated := ⟨precedes_nil, trivial⟩

theorem mark (m : Lexeme) (hm : m.isMark = true) (h : Spells ds ms) :
    Spells (m.chars ++ ds) (m :: ms) where
  chars_eq := by rw [h.chars_eq, List.flatMap_cons]
  wellSpelled := List.forall_mem_cons.mpr ⟨wellSpelled_of_isMark hm, h.wellSpelled⟩
  separated := ⟨precedes_of_isMark hm, h.separated⟩

/-- A mark stands between two sequences. -/
theorem append (h : Spells cs ls) (m : Lexeme) (hm : m.isMark = true) (h' : Spells ds ms) :
    Spells (cs ++ (m.chars ++ ds)) (ls ++ m :: ms) where
  chars_eq := by rw [h.chars_eq, h'.chars_eq, List.flatMap_append, List.flatMap_cons]
  wellSpelled := List.forall_mem_append.mpr ⟨h.wellSpelled, (mark m hm h').wellSpelled⟩
  separated := h.separated.append hm (mark m hm h').separated

/-- Lexemes that are written one after the other are read back. -/
theorem ofChars (h : Spells cs ls) : ofChars cs = some ls := by
  rw [h.chars_eq]
  exact scanAll_flatMap_chars h.wellSpelled h.separated
    (Nat.lt_succ_of_le (length_le_flatMap_chars h.wellSpelled))

end Spells

end Lexeme

end BoundSql.Json

import BoundSql.Proofs.Digits
import BoundSql.Timestamp.Text

/-! # Timestamps are read back -/

namespace BoundSql.Timestamp

open Text Calendar

variable {rest : List Char}

/-! ## Blanks -/

/-- A text that does not start with a blank. -/
def NoBlank (cs : List Char) : Prop :=
  ∀ c ∈ cs.head?, isBlank c = false

theorem noBlank_cons {c : Char} {cs : List Char} : NoBlank (c :: cs) ↔ isBlank c = false := by
  simp [NoBlank]

theorem skipBlanks_of_noBlank {cs : List Char} (h : NoBlank cs) : skipBlanks cs = cs := by
  cases cs with
  | nil => rfl
  | cons c cs => rw [skipBlanks, List.dropWhile_cons_of_neg (by simp [h c rfl])]

theorem isBlank_of_isDigit {c : Char} (h : c.isDigit = true) : isBlank c = false := by
  simp only [Char.isDigit, Bool.and_eq_true, decide_eq_true_eq, ge_iff_le,
    UInt32.le_iff_toNat_le] at h
  have hlow : 48 ≤ c.toNat := h.1
  have hhigh : c.toNat ≤ 57 := h.2
  simp [isBlank]
  omega

theorem noBlank_append {digits : List Char} (h : ∀ c ∈ digits, c.isDigit = true)
    (hne : digits ≠ []) : NoBlank (digits ++ rest) := by
  obtain ⟨d, tail, rfl⟩ := List.exists_cons_of_ne_nil hne
  intro c hc
  cases hc
  exact isBlank_of_isDigit (h d List.mem_cons_self)

/-! ## Numbers and marks -/

theorem scanDigits_append {width : Nat} {digits : List Char}
    (hdigits : ∀ c ∈ digits, c.isDigit = true) (hne : digits ≠ [])
    (hwidth : digits.length ≤ width) (hrest : NoDigit rest) :
    scanDigits width (digits ++ rest) = some (decimalValue digits, rest) := by
  have hspan := congrArg Prod.fst (spanDigits_append_of_noDigit hdigits hrest)
  have htake : ((digits ++ rest).takeWhile Char.isDigit).take width = digits := by
    rw [show (digits ++ rest).takeWhile Char.isDigit = digits from hspan,
      List.take_of_length_le hwidth]
  obtain ⟨d, tail, rfl⟩ := List.exists_cons_of_ne_nil hne
  simp only [scanDigits, htake, List.drop_left]

theorem scanPair_paddedDigits {n : Nat} (hn : n < 100) (hrest : NoDigit rest) :
    scanPair (paddedDigits 2 n ++ rest) = some (n, rest) := by
  have hdigits := isDigit_of_mem_paddedDigits 2 n
  have hne := paddedDigits_ne_nil 2 n
  have hlength : (paddedDigits 2 n).length = 2 := length_paddedDigits hn (by decide)
  rw [scanPair, skipBlanks_of_noBlank (noBlank_append hdigits hne),
    scanDigits_append hdigits hne (Nat.le_of_eq hlength) hrest, decimalValue_paddedDigits]

theorem scanMark_cons {mark : Char} (h : isBlank mark = false) :
    scanMark mark (mark :: rest) = some rest := by
  rw [scanMark, skipBlanks_of_noBlank (noBlank_cons.mpr h)]
  exact if_pos rfl

/-- A year without a sign starts with a digit. -/
theorem scanYear_append {digits : List Char} (hdigits : ∀ c ∈ digits, c.isDigit = true)
    (hne : digits ≠ []) :
    scanYear (digits ++ rest) =
      (scanDigits 4 (digits ++ rest)).map fun (n, after) => ((n : Int), after) := by
  rw [scanYear, skipBlanks_of_noBlank (noBlank_append hdigits hne)]
  obtain ⟨d, tail, rfl⟩ := List.exists_cons_of_ne_nil hne
  have hd := hdigits d List.mem_cons_self
  split
  · next heq => cases (List.cons.inj heq).1; cases hd
  · next heq => cases (List.cons.inj heq).1; cases hd
  · rfl

theorem scanYear_yearChars (year : Int) (hrest : NoDigit rest) :
    scanYear (yearChars year ++ rest) = some (year, rest) := by
  have hdigits := isDigit_of_mem_paddedDigits 4 year.natAbs
  have hne := paddedDigits_ne_nil 4 year.natAbs
  have hscan : ∀ width, (paddedDigits 4 year.natAbs).length ≤ width →
      scanDigits width (paddedDigits 4 year.natAbs ++ rest) = some (year.natAbs, rest) := by
    intro width hwidth
    rw [scanDigits_append hdigits hne hwidth hrest, decimalValue_paddedDigits]
  have hsigned := hscan (paddedDigits 4 year.natAbs ++ rest).length (by simp)
  unfold yearChars
  split
  case isTrue hnegative =>
    rw [List.cons_append, scanYear, skipBlanks_of_noBlank (noBlank_cons.mpr (by decide))]
    simp only [hsigned, Option.map_some, Option.some.injEq, Prod.mk.injEq, and_true]
    omega
  case isFalse hnegative =>
    have hsize : ((year.natAbs : Nat) : Int) = year := by omega
    split
    case isTrue hplain =>
      have hlength : (paddedDigits 4 year.natAbs).length = 4 :=
        length_paddedDigits (show year.natAbs < 10000 by omega) (by decide)
      simp only [scanYear_append hdigits hne, hscan 4 (Nat.le_of_eq hlength), Option.map_some,
        hsize]
    case isFalse hplain =>
      rw [List.cons_append, scanYear, skipBlanks_of_noBlank (noBlank_cons.mpr (by decide))]
      simp only [hsigned, Option.map_some, hsize]

/-! ## Fractions of a second -/

theorem scanFraction_paddedDigits {width n : Nat} (hwidth : 0 < width) (hnine : width ≤ 9)
    (hn : n < tenTo width) :
    scanFraction ('.' :: paddedDigits width n) = some (n * tenTo (9 - width), []) := by
  have hlength := length_paddedDigits hn hwidth
  have hvalue := decimalValue_paddedDigits width n
  have hspan := spanDigits_append_of_noDigit (isDigit_of_mem_paddedDigits width n) noDigit_nil
  rw [List.append_nil] at hspan
  obtain ⟨d, tail, hdigits⟩ := List.exists_cons_of_ne_nil (paddedDigits_ne_nil width n)
  rw [hdigits] at hlength hvalue hspan ⊢
  simp only [scanFraction, hspan, List.take_of_length_le (hlength ▸ hnine), hvalue, hlength]

theorem scanFraction_fractionChars {nanosecond : Nat} (h : nanosecond < tenTo 9) :
    scanFraction (fractionChars nanosecond) = some (nanosecond, []) := by
  have hlimit : nanosecond < 1000000000 := h
  unfold fractionChars
  split
  case isTrue hzero => rw [hzero]; rfl
  case isFalse hzero =>
    split
    case isTrue hmilli =>
      have hexact : nanosecond / 1000000 * 1000000 = nanosecond :=
        Nat.div_mul_cancel (Nat.dvd_of_mod_eq_zero hmilli)
      rw [scanFraction_paddedDigits (by decide) (by decide)
        (show nanosecond / 1000000 < 1000 by omega)]
      exact congrArg (fun n => some (n, [])) hexact
    case isFalse hmilli =>
      split
      case isTrue hmicro =>
        have hexact : nanosecond / 1000 * 1000 = nanosecond :=
          Nat.div_mul_cancel (Nat.dvd_of_mod_eq_zero hmicro)
        rw [scanFraction_paddedDigits (by decide) (by decide)
          (show nanosecond / 1000 < 1000000 by omega)]
        exact congrArg (fun n => some (n, [])) hexact
      case isFalse hmicro =>
        rw [scanFraction_paddedDigits (by decide) (by decide) h]
        exact congrArg (fun n => some (n, [])) (Nat.mul_one nanosecond)

theorem noDigit_fractionChars (nanosecond : Nat) : NoDigit (fractionChars nanosecond) := by
  unfold fractionChars
  split
  · exact noDigit_nil
  · split
    · exact noDigit_cons.mpr rfl
    · split <;> exact noDigit_cons.mpr rfl

/-! ## Timestamps -/

theorem daysInMonth_le (year : Int) (month : Nat) : daysInMonth year month ≤ 31 := by
  unfold daysInMonth
  split
  · split <;> decide
  all_goals decide

/-- Every part but the year and the fraction has at most two digits. -/
theorem parts_lt (t : Timestamp) :
    t.month < 100 ∧ t.day < 100 ∧ t.hour < 100 ∧ t.minute < 100 ∧ t.second < 100 := by
  have hdate := t.date_exists
  have htime := t.time_exists
  have hdays := daysInMonth_le t.year t.month
  simp only [isDate, isTime, Bool.and_eq_true, decide_eq_true_eq] at hdate htime
  omega

/-- A timestamp is read back. -/
theorem ofString?_render (t : Timestamp) : ofString? t.render = some t := by
  have hdash : ∀ rest, NoDigit ('-' :: rest) := fun _ => noDigit_cons.mpr rfl
  have hletter : ∀ rest, NoDigit ('T' :: rest) := fun _ => noDigit_cons.mpr rfl
  have hcolon : ∀ rest, NoDigit (':' :: rest) := fun _ => noDigit_cons.mpr rfl
  have hmarks : isBlank '-' = false ∧ isBlank 'T' = false ∧ isBlank ':' = false := by decide
  obtain ⟨hmonth, hday, hhour, hminute, hsecond⟩ := t.parts_lt
  have hfraction : t.nanosecond < tenTo 9 := by
    have htime := t.time_exists
    simp only [isTime, Bool.and_eq_true, decide_eq_true_eq] at htime
    exact htime.2
  rw [ofString?, render, String.toList_ofList, ofChars?, chars]
  simp only [Option.bind_eq_bind, Option.bind_some, scanYear_yearChars t.year (hdash _),
    scanMark_cons hmarks.1, scanMark_cons hmarks.2.1, scanMark_cons hmarks.2.2,
    scanPair_paddedDigits hmonth (hdash _), scanPair_paddedDigits hday (hletter _),
    scanPair_paddedDigits hhour (hcolon _), scanPair_paddedDigits hminute (hcolon _),
    scanPair_paddedDigits hsecond (noDigit_fractionChars _), scanFraction_fractionChars hfraction]
  exact dif_pos ⟨t.date_exists, t.time_exists⟩

end BoundSql.Timestamp

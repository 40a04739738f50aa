import BoundSql.Power
import BoundSql.Text.Digits

/-! # Digits are read back -/

namespace BoundSql.Text

/-- A text that does not go on with a digit. -/
def NoDigit (rest : List Char) : Prop :=
  ∀ c ∈ rest.head?, c.isDigit = false

theorem noDigit_nil : NoDigit [] :=
  nofun

theorem noDigit_cons {c : Char} {rest : List Char} : NoDigit (c :: rest) ↔ c.isDigit = false := by
  simp [NoDigit]

theorem isDigit_of_mem_decimalDigits {n : Nat} : ∀ c ∈ decimalDigits n, c.isDigit = true :=
  fun _ hc => Nat.isDigit_of_mem_toDigits (by decide) (by decide) hc

theorem decimalDigits_ne_nil {n : Nat} : decimalDigits n ≠ [] :=
  Nat.toDigits_ne_nil

/-- No number but zero starts with a zero. -/
theorem tail_decimalDigits {n : Nat} {tail : List Char} (h : decimalDigits n = '0' :: tail) :
    tail = [] := by
  unfold decimalDigits at h
  induction n using Nat.strongRecOn generalizing tail with
  | ind n ih =>
      by_cases hn : n < 10
      · rw [Nat.toDigits_of_lt_base hn, List.cons.injEq] at h
        exact h.2.symm
      · rw [Nat.toDigits_of_base_le (by decide) (by omega)] at h
        obtain ⟨hd, -⟩ | ⟨front, hfront, -⟩ := List.append_eq_cons_iff.mp h
        · exact absurd hd Nat.toDigits_ne_nil
        · -- The digits of the quotient would be a single zero, but it is at least one.
          have hzero := ih (n / 10) (by omega) hfront
          have hvalue := decimalValue_decimalDigits (n / 10)
          rw [decimalDigits, hfront, hzero] at hvalue
          have : decimalValue ['0'] = 0 := rfl
          omega

theorem spanDigits_append_of_noDigit {digits rest : List Char}
    (hdigits : ∀ c ∈ digits, c.isDigit = true) (hrest : NoDigit rest) :
    spanDigits (digits ++ rest) = (digits, rest) := by
  have htake : rest.takeWhile Char.isDigit = [] := by
    cases rest with
    | nil => rfl
    | cons c rest => rw [List.takeWhile_cons, noDigit_cons.mp hrest]; rfl
  have hdrop : rest.dropWhile Char.isDigit = rest := by
    simpa [htake] using List.takeWhile_append_dropWhile (p := Char.isDigit) (l := rest)
  rw [spanDigits, List.takeWhile_append_of_pos hdigits, List.dropWhile_append_of_pos hdigits,
    htake, hdrop, List.append_nil]

/-! ## Padding -/

theorem isDigit_of_mem_paddedDigits (width n : Nat) :
    ∀ c ∈ paddedDigits width n, c.isDigit = true := by
  intro c hc
  rcases List.mem_append.mp hc with hzero | hdigit
  · rw [List.eq_of_mem_replicate hzero]
    rfl
  · exact isDigit_of_mem_decimalDigits c hdigit

theorem paddedDigits_ne_nil (width n : Nat) : paddedDigits width n ≠ [] :=
  List.append_ne_nil_of_right_ne_nil _ decimalDigits_ne_nil

theorem decimalValue_paddedDigits (width n : Nat) : decimalValue (paddedDigits width n) = n := by
  rw [paddedDigits, decimalValue, Nat.ofDigitChars_append, Nat.ofDigitChars_replicate_zero,
    Nat.mul_zero]
  exact decimalValue_decimalDigits n

theorem length_paddedDigits {width n : Nat} (hn : n < tenTo width) (hwidth : 0 < width) :
    (paddedDigits width n).length = width := by
  have hdigits : (decimalDigits n).length ≤ width :=
    (Nat.length_toDigits_le_iff (by decide) hwidth).mpr hn
  rw [paddedDigits, List.length_append, List.length_replicate]
  omega

/-! ## Hexadecimal digits -/

theorem hexValue?_hexDigit (n : Nat) : hexValue? (hexDigit n) = some (n % 16) := by
  have hall : ∀ d < 16, hexValue? (Nat.digitChar d) = some d := by decide
  exact hall (n % 16) (Nat.mod_lt n (by decide))

theorem hexNumber?_hexDigits {n : Nat} (hn : n < 65536) : hexNumber? (hexDigits 4 n) = some n := by
  simp only [hexDigits, hexNumber?, List.nil_append, List.cons_append, List.foldlM_cons,
    List.foldlM_nil, hexValue?_hexDigit, Option.map_some, Option.bind_eq_bind, Option.bind_some,
    Option.pure_def, Option.some.injEq]
  omega

end BoundSql.Text

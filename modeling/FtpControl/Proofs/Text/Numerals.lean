import FtpControl.Numeral
import Mathlib.Algebra.Group.Nat.Defs
import Mathlib.Data.List.Basic
import Mathlib.Data.List.Induction

/-!
# What numerals denote

A numeral is at least one digit, with or without a `+` in front, and denotes a number by the place
values of its digits. A text is read as a number exactly if it is a numeral of it and the number
lies below the bound, however many zeros it begins with. A number is written as the one numeral of
it that has no sign and no zero to spare.
-/

namespace FtpControl.Numeral

/-- Whether a character is a digit of the radix. -/
def IsDigit (radix : Nat) (c : Char) : Prop := c.isDigit = true ∧ c.toNat - '0'.toNat < radix

/-- Whether a text is a numeral of a number. -/
inductive Denotes (radix : Nat) (s : String) (n : Nat) : Prop where
  | intro (sign digits : List Char) (htext : s.toList = sign ++ digits)
      (hsign : sign = [] ∨ sign = ['+']) (hsome : digits ≠ [])
      (hdigits : ∀ c ∈ digits, IsDigit radix c) (hvalue : Nat.ofDigitChars radix digits 0 = n) :
      Denotes radix s n

variable {radix bound value n : Nat} {c : Char} {cs : List Char}

/-- Nothing but digits and signs stands in a numeral. -/
theorem Denotes.notMem {s : String} (h : Denotes radix s n) (hdigit : c.isDigit = false)
    (hplus : c ≠ '+') : c ∉ s.toList := by
  cases h with
  | intro sign digits htext hsign _ hdigits _ =>
      rw [htext, List.mem_append, not_or]
      constructor
      · rcases hsign with rfl | rfl
        · simp
        · simpa using hplus
      · intro hc
        simp [(hdigits c hc).1] at hdigit

theorem digit?_of_isDigit (h : IsDigit radix c) : digit? radix c = some (c.toNat - '0'.toNat) :=
  if_pos h

theorem digit?_of_not_isDigit (h : ¬ IsDigit radix c) : digit? radix c = none := if_neg h

/-- Further digits never make a number smaller. -/
theorem le_ofDigitChars (hradix : 0 < radix) (cs : List Char) (value : Nat) :
    value ≤ Nat.ofDigitChars radix cs value := by
  induction cs generalizing value with
  | nil => exact Nat.le_refl _
  | cons c cs ih =>
      rw [Nat.ofDigitChars_cons]
      calc value ≤ radix * value := Nat.le_mul_of_pos_left value hradix
        _ ≤ radix * value + (c.toNat - '0'.toNat) := Nat.le_add_right ..
        _ ≤ _ := ih _

/-- Digits are read onto a value as far as the number that they make of it lies below the bound. -/
theorem readDigits_eq_ok_iff (hradix : 0 < radix) (h : value < bound) :
    readDigits radix bound value cs = .ok n ↔
      (∀ c ∈ cs, IsDigit radix c) ∧ Nat.ofDigitChars radix cs value = n ∧ n < bound := by
  induction cs generalizing value with
  | nil =>
      simp only [readDigits, Except.ok.injEq, List.not_mem_nil, false_implies, implies_true,
        true_and]
      constructor
      · rintro rfl
        exact ⟨rfl, h⟩
      · exact And.left
  | cons c cs ih =>
      rw [Nat.ofDigitChars_cons, List.forall_mem_cons, Nat.mul_comm radix value]
      by_cases hc : IsDigit radix c
      · simp only [readDigits, digit?_of_isDigit hc, hc, true_and]
        by_cases hfits : value * radix + (c.toNat - '0'.toNat) < bound
        · rw [if_pos hfits, ih hfits]
        · -- The number only grows from here on.
          have hgrows := le_ofDigitChars hradix cs (value * radix + (c.toNat - '0'.toNat))
          simp only [if_neg hfits, reduceCtorEq, false_iff]
          rintro ⟨-, rfl, hn⟩
          omega
      · simp [readDigits, digit?_of_not_isDigit hc, hc]

theorem not_isDigit_plus (radix : Nat) : ¬ IsDigit radix '+' := fun h => absurd h.1 (by decide)

theorem readChars_of_ne (hne : cs ≠ []) (hplus : ∀ rest, cs ≠ '+' :: rest) :
    readChars radix bound cs = readDigits radix bound 0 cs := by
  unfold readChars
  split
  · exact absurd rfl hne
  · exact absurd rfl (hplus [])
  · next rest _ => exact absurd rfl (hplus rest)
  · rfl

theorem readChars_plus (hne : cs ≠ []) :
    readChars radix bound ('+' :: cs) = readDigits radix bound 0 cs := by
  cases cs with
  | nil => exact absurd rfl hne
  | cons => rfl

/-- A text is read as a number exactly if it is a numeral of it below the bound. -/
theorem read_eq_ok_iff (hradix : 0 < radix) (hbound : 0 < bound) {s : String} :
    read radix bound s = .ok n ↔ Denotes radix s n ∧ n < bound := by
  rw [read]
  constructor
  · intro h
    by_cases hplus : ∃ rest, s.toList = '+' :: rest
    · obtain ⟨rest, htext⟩ := hplus
      have hsome : rest ≠ [] := by
        rintro rfl
        simp [htext, readChars] at h
      rw [htext, readChars_plus hsome, readDigits_eq_ok_iff hradix hbound] at h
      obtain ⟨hdigits, hvalue, hn⟩ := h
      exact ⟨.intro ['+'] rest htext (.inr rfl) hsome hdigits hvalue, hn⟩
    · have hsome : s.toList ≠ [] := by
        intro hnil
        simp [hnil, readChars] at h
      rw [readChars_of_ne hsome (not_exists.mp hplus), readDigits_eq_ok_iff hradix hbound] at h
      obtain ⟨hdigits, hvalue, hn⟩ := h
      exact ⟨.intro [] s.toList rfl (.inl rfl) hsome hdigits hvalue, hn⟩
  · rintro ⟨⟨sign, digits, htext, hsign, hsome, hdigits, hvalue⟩, hn⟩
    have hread := (readDigits_eq_ok_iff hradix hbound).mpr ⟨hdigits, hvalue, hn⟩
    rw [htext]
    rcases hsign with rfl | rfl
    · rw [List.nil_append, readChars_of_ne hsome, hread]
      rintro rest rfl
      exact not_isDigit_plus radix (hdigits _ List.mem_cons_self)
    · rw [List.singleton_append, readChars_plus hsome, hread]

theorem readOffset_eq_ok_iff {s : String} :
    readOffset s = .ok n ↔ Denotes 10 s n ∧ n < 2 ^ 64 := read_eq_ok_iff (by decide) (by decide)

theorem readId_eq_ok_iff {s : String} :
    readId s = .ok n ↔ Denotes 10 s n ∧ n < 2 ^ 32 := read_eq_ok_iff (by decide) (by decide)

theorem readMode_eq_ok_iff {s : String} :
    readMode s = .ok n ↔ Denotes 8 s n ∧ n < 2 ^ 32 := read_eq_ok_iff (by decide) (by decide)

example : readMode "+0644" = .ok 0o644 := rfl

/-! ## Numbers that are written -/

variable {width : Nat} {s : String}

theorem toList_padZeros (width : Nat) (s : String) :
    (padZeros width s).toList = List.replicate (width - s.toList.length) '0' ++ s.toList := by
  rw [padZeros, String.toList_ofList]

/-- Zeros in front make no difference to a number. -/
theorem ofDigitChars_padZeros (radix width : Nat) (s : String) :
    Nat.ofDigitChars radix (padZeros width s).toList 0 = Nat.ofDigitChars radix s.toList 0 := by
  rw [toList_padZeros, Nat.ofDigitChars_append, Nat.ofDigitChars_replicate_zero, Nat.mul_zero]

theorem ofDigitChars_decimal (width n : Nat) :
    Nat.ofDigitChars 10 (decimal width n).toList 0 = n := by
  rw [decimal, ofDigitChars_padZeros, String.toList_ofList]
  exact Nat.ofDigitChars_toDigits (by decide) (by decide)

theorem ofDigitChars_octal (width n : Nat) :
    Nat.ofDigitChars 8 (octal width n).toList 0 = n := by
  rw [octal, ofDigitChars_padZeros, String.toList_ofList]
  exact Nat.ofDigitChars_toDigits (by decide) (by decide)

theorem ofDigitChars_toString (n : Nat) : Nat.ofDigitChars 10 (toString n).toList 0 = n := by
  rw [Nat.toString_eq_ofList_toDigits, String.toList_ofList]
  exact Nat.ofDigitChars_toDigits (by decide) (by decide)

theorem isDigit_of_mem_toDigits (hpos : 0 < radix) (hten : radix ≤ 10) :
    ∀ c ∈ (String.ofList (Nat.toDigits radix n)).toList, c.isDigit = true := by
  intro c hc
  rw [String.toList_ofList] at hc
  exact Nat.isDigit_of_mem_toDigits hpos hten hc

theorem isDigit_of_mem_toString : ∀ c ∈ (toString n).toList, c.isDigit = true := by
  rw [Nat.toString_eq_ofList_toDigits]
  exact isDigit_of_mem_toDigits (by decide) (by decide)

theorem isDigit_of_mem_padZeros (h : ∀ c ∈ s.toList, c.isDigit = true) :
    ∀ c ∈ (padZeros width s).toList, c.isDigit = true := by
  intro c hc
  rw [toList_padZeros, List.mem_append] at hc
  rcases hc with hc | hc
  · rw [(List.mem_replicate.mp hc).2]
    rfl
  · exact h c hc

theorem isDigit_of_mem_decimal : ∀ c ∈ (decimal width n).toList, c.isDigit = true :=
  isDigit_of_mem_padZeros (isDigit_of_mem_toDigits (by decide) (by decide))

theorem isDigit_of_mem_octal : ∀ c ∈ (octal width n).toList, c.isDigit = true :=
  isDigit_of_mem_padZeros (isDigit_of_mem_toDigits (by decide) (by decide))

/-- A number that fits has as many digits as are asked for. -/
theorem length_decimal (hwidth : 0 < width) (h : n < 10 ^ width) :
    (decimal width n).toList.length = width := by
  have hlength := (Nat.length_toDigits_le_iff (b := 10) (by decide) hwidth).mpr h
  rw [decimal, toList_padZeros, String.toList_ofList, List.length_append, List.length_replicate]
  omega

/-! ## Plain decimal -/

/-- Whether a text is a number in plain decimal: its digits, which begin with a zero only if that is
all of them. -/
structure PlainDecimal (s : String) (n : Nat) : Prop where
  nonempty : s.toList ≠ []
  digits : ∀ c ∈ s.toList, c.isDigit = true
  shortest : s.toList.head? = some '0' → s.toList = ['0']
  value : Nat.ofDigitChars 10 s.toList 0 = n

/-- A digit is the one that is written for its value. -/
theorem digitChar_of_isDigit (h : c.isDigit = true) :
    c.toNat - '0'.toNat < 10 ∧ Nat.digitChar (c.toNat - '0'.toNat) = c := by
  rw [Char.isDigit_iff_toNat] at h
  have hzero : '0'.toNat = 48 := rfl
  have hnine : '9'.toNat = 57 := rfl
  have hlt : c.toNat - '0'.toNat < 10 := by omega
  refine ⟨hlt, Char.toNat_inj.mp ?_⟩
  rw [Nat.toNat_digitChar_of_lt_ten hlt]
  omega

/-- Digits that do not begin with a zero are those of the number that they make. -/
theorem toDigits_ofDigitChars (hne : cs ≠ []) (hdigits : ∀ c ∈ cs, c.isDigit = true)
    (hhead : cs.head? ≠ some '0') : Nat.toDigits 10 (Nat.ofDigitChars 10 cs 0) = cs := by
  induction cs using List.reverseRecOn with
  | nil => exact absurd rfl hne
  | append_singleton front c ih =>
      rw [List.forall_mem_append, List.forall_mem_singleton] at hdigits
      obtain ⟨hlt, hchar⟩ := digitChar_of_isDigit hdigits.2
      rw [Nat.ofDigitChars_append, Nat.ofDigitChars_cons, Nat.ofDigitChars_nil]
      by_cases hfront : front = []
      · subst hfront
        rw [Nat.ofDigitChars_nil, Nat.mul_zero, Nat.zero_add, Nat.toDigits_of_lt_base hlt, hchar,
          List.nil_append]
      · rw [List.head?_append_of_ne_nil _ hfront] at hhead
        have hwhole := ih hfront hdigits.1 hhead
        -- The digits in front do not make zero, so the last one is written after them.
        have hpos : 0 < Nat.ofDigitChars 10 front 0 := by
          rw [Nat.pos_iff_ne_zero]
          intro hzero
          rw [hzero, Nat.toDigits_zero] at hwhole
          exact hhead (hwhole ▸ rfl)
        rw [← Nat.toDigits_append_toDigits (by decide) hpos hlt, hwhole,
          Nat.toDigits_of_lt_base hlt, hchar]

/-- Only zero is written with a zero in front. -/
theorem eq_zero_of_head?_toDigits (h : (Nat.toDigits 10 n).head? = some '0') : n = 0 := by
  induction n using Nat.strongRecOn with
  | ind n ih =>
      by_cases hlt : n < 10
      · rw [Nat.toDigits_of_lt_base hlt, List.head?_singleton, Option.some.injEq] at h
        exact Nat.digitChar_eq_zero.mp h
      · rw [Nat.toDigits_of_base_le (by decide) (by omega),
          List.head?_append_of_ne_nil _ Nat.toDigits_ne_nil] at h
        have htens := ih (n / 10) (by omega) h
        omega

theorem plainDecimal_toString (n : Nat) : PlainDecimal (toString n) n where
  nonempty := by
    rw [Nat.toString_eq_ofList_toDigits, String.toList_ofList]
    exact Nat.toDigits_ne_nil
  digits := isDigit_of_mem_toString
  shortest := by
    rw [Nat.toString_eq_ofList_toDigits, String.toList_ofList]
    intro hhead
    rw [eq_zero_of_head?_toDigits hhead, Nat.toDigits_zero]
  value := ofDigitChars_toString n

/-- A number is written in plain decimal, and in no other way. -/
theorem plainDecimal_iff : PlainDecimal s n ↔ s = toString n := by
  constructor
  · rintro ⟨hne, hdigits, hshortest, rfl⟩
    apply String.toList_injective
    rw [Nat.toString_eq_ofList_toDigits, String.toList_ofList]
    by_cases hhead : s.toList.head? = some '0'
    · rw [hshortest hhead]
      rfl
    · exact (toDigits_ofDigitChars hne hdigits hhead).symm
  · rintro rfl
    exact plainDecimal_toString n

theorem PlainDecimal.unique {t : String} (hs : PlainDecimal s n) (ht : PlainDecimal t n) : s = t :=
  (plainDecimal_iff.mp hs).trans (plainDecimal_iff.mp ht).symm

end FtpControl.Numeral

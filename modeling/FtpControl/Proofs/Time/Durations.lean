import FtpControl.Duration
import FtpControl.Proofs.Text.Numerals

/-!
# Durations as clocks show them

A duration is written as one to three numbers, each with the letter of its unit behind it. No number
has a letter in it, so a text falls apart into its numbers in one way. A number below its bound is
what is left of the seconds after the larger units, so the numbers stand for one duration, and the
duration for one row of numbers.
-/

namespace FtpControl.Duration

open Numeral (PlainDecimal plainDecimal_toString)

/-- The numbers that a clock shows of a duration, for the units from one on. -/
inductive Face where
  | seconds (s : Nat)
  | minutes (m s : Nat)
  | hours (h m s : Nat)
  deriving DecidableEq, Repr

namespace Face

/-- How many seconds a face stands for. -/
def total : Face → Nat
  | seconds s => s
  | minutes m s => 60 * m + s
  | hours h m s => 3600 * h + 60 * m + s

/-- Whether no number makes up one more of the next larger unit, and the first one is not zero.
Seconds alone may be. -/
def IsRegular : Face → Prop
  | seconds s => s < 60
  | minutes m s => 0 < m ∧ m < 60 ∧ s < 60
  | hours h m s => 0 < h ∧ m < 60 ∧ s < 60

/-- Whether a text is a face in plain decimal numbers, each with the letter of its unit. -/
inductive Spells : Face → String → Prop
  | seconds {a : String} {s : Nat} (hs : PlainDecimal a s) : Spells (.seconds s) (a ++ "s")
  | minutes {a b : String} {m s : Nat} (hm : PlainDecimal a m) (hs : PlainDecimal b s) :
      Spells (.minutes m s) (a ++ "m" ++ b ++ "s")
  | hours {a b c : String} {h m s : Nat} (hh : PlainDecimal a h) (hm : PlainDecimal b m)
      (hs : PlainDecimal c s) : Spells (.hours h m s) (a ++ "h" ++ b ++ "m" ++ c ++ "s")

/-! ## Reading -/

/-- The numbers in a text, each with the character that ends it. The digits so far make `value`. -/
def readMarks (value : Nat) : List Char → List (Nat × Char)
  | [] => []
  | c :: cs =>
      if c.isDigit then readMarks (10 * value + (c.toNat - '0'.toNat)) cs
      else (value, c) :: readMarks 0 cs

/-- Reads a face by the letters behind its numbers. -/
def read? (s : String) : Option Face :=
  match readMarks 0 s.toList with
  | [(s, 's')] => some (.seconds s)
  | [(m, 'm'), (s, 's')] => some (.minutes m s)
  | [(h, 'h'), (m, 'm'), (s, 's')] => some (.hours h m s)
  | _ => none

theorem readMarks_append {digits : List Char} (h : ∀ c ∈ digits, c.isDigit = true) (value : Nat)
    (cs : List Char) :
    readMarks value (digits ++ cs) = readMarks (Nat.ofDigitChars 10 digits value) cs := by
  induction digits generalizing value with
  | nil => rfl
  | cons c digits ih =>
      rw [List.forall_mem_cons] at h
      rw [List.cons_append, readMarks, if_pos h.1, ih h.2, Nat.ofDigitChars_cons]

/-- A number is read up to its letter, whatever follows. -/
theorem readMarks_plainDecimal {n : Nat} {number : String} (h : PlainDecimal number n)
    {letter : Char} (hletter : letter.isDigit = false) (cs : List Char) :
    readMarks 0 (number.toList ++ letter :: cs) = (n, letter) :: readMarks 0 cs := by
  rw [readMarks_append h.digits, h.value, readMarks, if_neg (by simp [hletter])]

variable {face other : Face} {s t : String}

/-- A face that a text spells is read from it. -/
theorem Spells.read?_eq (h : face.Spells s) : read? s = some face := by
  cases h with
  | seconds hs => simp [read?, readMarks_plainDecimal hs, readMarks]
  | minutes hm hs => simp [read?, readMarks_plainDecimal hm, readMarks_plainDecimal hs, readMarks]
  | hours hh hm hs =>
      simp [read?, readMarks_plainDecimal hh, readMarks_plainDecimal hm, readMarks_plainDecimal hs,
        readMarks]

/-! ## Writing -/

/-- A face is spelled in one way only. -/
theorem Spells.text_eq (hs : face.Spells s) (ht : face.Spells t) : s = t := by
  cases hs with
  | seconds hs =>
      cases ht with
      | seconds hs' => rw [hs.unique hs']
  | minutes hm hs =>
      cases ht with
      | minutes hm' hs' => rw [hm.unique hm', hs.unique hs']
  | hours hh hm hs =>
      cases ht with
      | hours hh' hm' hs' => rw [hh.unique hh', hm.unique hm', hs.unique hs']

/-- A duration has one regular face: how long it is tells the units, and division the numbers. -/
theorem IsRegular.eq_of_total_eq (hface : face.IsRegular) (hother : other.IsRegular)
    (h : face.total = other.total) : face = other := by
  cases face <;> cases other <;> simp only [IsRegular, total] at hface hother h <;>
    simp only [reduceCtorEq, seconds.injEq, minutes.injEq, hours.injEq] <;> omega

end Face

/-- What is written for a duration is a regular face of it. -/
theorem exists_face (n : Nat) :
    ∃ face : Face, face.IsRegular ∧ face.total = n ∧ face.Spells (text n) := by
  have hrest : n % 60 < 60 := Nat.mod_lt n (by decide)
  simp only [text]
  split_ifs with hhours hminutes
  · refine ⟨.hours (n / 3600) (n % 3600 / 60) (n % 60), ⟨hhours, by omega, hrest⟩, ?_, ?_⟩
    · show 3600 * (n / 3600) + 60 * (n % 3600 / 60) + n % 60 = n
      omega
    · exact .hours (plainDecimal_toString _) (plainDecimal_toString _) (plainDecimal_toString _)
  · refine ⟨.minutes (n % 3600 / 60) (n % 60), ⟨hminutes, by omega, hrest⟩, ?_, ?_⟩
    · show 60 * (n % 3600 / 60) + n % 60 = n
      omega
    · exact .minutes (plainDecimal_toString _) (plainDecimal_toString _)
  · refine ⟨.seconds (n % 60), hrest, ?_, .seconds (plainDecimal_toString _)⟩
    show n % 60 = n
    omega

/-- The written form of a duration is what its regular face spells. -/
theorem text_eq_iff {n : Nat} {s : String} :
    text n = s ↔ ∃ face : Face, face.IsRegular ∧ face.total = n ∧ face.Spells s := by
  obtain ⟨face, hregular, htotal, hspells⟩ := exists_face n
  constructor
  · rintro rfl
    exact ⟨face, hregular, htotal, hspells⟩
  · rintro ⟨other, hother, rfl, hs⟩
    obtain rfl := hregular.eq_of_total_eq hother htotal
    exact hspells.text_eq hs

/-- The written form of a duration has one face in it, which is read from it. -/
theorem spells_text_iff {n : Nat} {face : Face} :
    face.Spells (text n) ↔ Face.read? (text n) = some face := by
  refine ⟨Face.Spells.read?_eq, fun hread => ?_⟩
  obtain ⟨shown, -, -, hspells⟩ := exists_face n
  rw [hspells.read?_eq, Option.some.injEq] at hread
  exact hread ▸ hspells

/-- A duration that was written is read back. -/
theorem total_read_text (n : Nat) : (Face.read? (text n)).map Face.total = some n := by
  obtain ⟨face, -, htotal, hspells⟩ := exists_face n
  rw [hspells.read?_eq, Option.map_some, htotal]

/-- Written durations lose nothing. Any number of seconds is written as seconds, as minutes and
seconds, or as hours, minutes and seconds, in plain decimal, with less than sixty of all but the
hours, and with a first number that is zero for no seconds at all only; they make up the number. No
other text is like that. The numbers are read back from it, and each number of seconds has a text of
its own. -/
theorem text_decodes (n : Nat) :
    (∀ s, text n = s ↔ ∃ face : Face, face.IsRegular ∧ face.total = n ∧ face.Spells s) ∧
      (∀ face : Face, face.Spells (text n) ↔ Face.read? (text n) = some face) ∧
      (Face.read? (text n)).map Face.total = some n ∧ ∀ m, text m = text n ↔ m = n := by
  refine ⟨fun _ => text_eq_iff, fun _ => spells_text_iff, total_read_text n, fun m => ?_⟩
  constructor
  · intro h
    rw [← Option.some.injEq, ← total_read_text m, ← total_read_text n, h]
  · rintro rfl
    rfl

/-- Minutes that are zero are left out in front, but not behind hours. -/
example : text 59 = "59s" ∧ text 3600 = "1h0m0s" ∧
    Face.read? "1h0m0s" = some (.hours 1 0 0) := by decide

end FtpControl.Duration

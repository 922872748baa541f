import FtpControl.Proofs.Text.Numerals
import FtpControl.Proofs.Time.Calendar
import FtpControl.Time.Timestamp

/-!
# Times to the second

A time is written as digits without anything between them. Five times two of them stand at the end,
so that what is left is the year, with its sign. So the date and the time of day can be read back,
and the time itself to the second.
-/

namespace FtpControl

/-- A point in time to the second, as a calendar and a clock show it. -/
structure Moment where
  date : CivilDate
  hour : Nat
  minute : Nat
  second : Nat
  deriving DecidableEq, Repr

namespace Timestamp

/-- What a calendar and a clock show of a time. -/
def moment (t : Timestamp) : Moment := ⟨t.date, t.hour, t.minute, t.second⟩

/-- Whether times agree to the second: they are in the same minute, and in the same second of it. A
leap second is one more than the second before it. -/
def Agree (a b : Timestamp) : Prop := a.seconds / 60 = b.seconds / 60 ∧ a.second = b.second

variable {a b t : Timestamp}

/-- Times agree to the second exactly if calendar and clock show the same. -/
theorem moment_eq_iff : a.moment = b.moment ↔ Agree a b := by
  simp only [moment, Moment.mk.injEq, Agree, date, hour, minute]
  constructor
  · rintro ⟨hdate, hhour, hminute, hsecond⟩
    have hdays := congrArg CivilDate.toDays hdate
    rw [CivilDate.toDays_ofDays, CivilDate.toDays_ofDays] at hdays
    refine ⟨?_, hsecond⟩
    simp only [secondOfDay] at hhour hminute
    omega
  · rintro ⟨hminutes, hsecond⟩
    have hdays : a.seconds / 86400 = b.seconds / 86400 := by omega
    refine ⟨congrArg CivilDate.ofDays hdays, ?_, ?_, hsecond⟩ <;>
      simp only [secondOfDay] <;>
      omega

/-- Times that agree to the second are written alike. -/
theorem Agree.compact_eq (h : Agree a b) : a.compact = b.compact := by
  obtain ⟨hdate, hhour, hminute, hsecond⟩ := Moment.mk.inj (moment_eq_iff.mpr h)
  rw [compact, compact, hdate, hhour, hminute, hsecond]

/-- A time is written in digits, but for the sign of the year. -/
theorem isDigit_or_sign_of_mem_compact (t : Timestamp) :
    ∀ c ∈ t.compact.toList, c.isDigit = true ∨ c = '-' ∨ c = '+' := by
  have hdecimal : ∀ width n, ∀ c ∈ (Numeral.decimal width n).toList, c.isDigit = true :=
    fun _ _ => Numeral.isDigit_of_mem_decimal
  have hyear : ∀ c ∈ (yearText t.date.year).toList, c.isDigit = true ∨ c = '-' ∨ c = '+' := by
    intro c hc
    unfold yearText at hc
    split_ifs at hc
    · rw [String.toList_append, List.mem_append] at hc
      rcases hc with hc | hc
      · exact .inr (.inl (List.mem_singleton.mp hc))
      · exact .inl (hdecimal 4 _ c hc)
    · rw [String.toList_append, List.mem_append] at hc
      rcases hc with hc | hc
      · exact .inr (.inr (List.mem_singleton.mp hc))
      · exact .inl (hdecimal 4 _ c hc)
    · exact .inl (hdecimal 4 _ c hc)
  intro c hc
  simp only [compact, String.toList_append, List.mem_append] at hc
  rcases hc with ((((hc | hc) | hc) | hc) | hc) | hc
  · exact hyear c hc
  all_goals exact .inl (hdecimal 2 _ c hc)

/-- Whether a time is proper: what it counts in nanoseconds is less than a second, or a leap second
at the end of a minute. -/
def IsProper (t : Timestamp) : Prop :=
  t.nanos < 1000000000 ∨ t.nanos < 2000000000 ∧ t.seconds % 60 = 59

/-- Proper times agree to the second if they are in the same one, both in a leap second or
neither. -/
theorem agree_iff (ha : a.IsProper) (hb : b.IsProper) :
    Agree a b ↔ a.seconds = b.seconds ∧ a.nanos / 1000000000 = b.nanos / 1000000000 := by
  simp only [IsProper, Agree, second, secondOfDay] at *
  omega

end Timestamp

/-! ## Reading -/

namespace Moment

def readYear : List Char → Int
  | '-' :: cs => -Nat.ofDigitChars 10 cs 0
  | '+' :: cs => Nat.ofDigitChars 10 cs 0
  | cs => Nat.ofDigitChars 10 cs 0

/-- Reads the number in the two characters after the first `n`. -/
def readTwo (n : Nat) (cs : List Char) : Nat := Nat.ofDigitChars 10 ((cs.drop n).take 2) 0

/-- Reads a time that is written in digits only: two each for all but the year, which is what stands
in front. -/
def read (s : String) : Moment :=
  let year := s.toList.take (s.toList.length - 10)
  let rest := s.toList.drop (s.toList.length - 10)
  { date := ⟨readYear year, readTwo 0 rest, readTwo 2 rest⟩
    hour := readTwo 4 rest
    minute := readTwo 6 rest
    second := readTwo 8 rest }

theorem readYear_of_isDigit {cs : List Char} (h : ∀ c ∈ cs, c.isDigit = true) :
    readYear cs = Nat.ofDigitChars 10 cs 0 := by
  unfold readYear
  split
  · exact absurd (h _ List.mem_cons_self) (by decide)
  · exact absurd (h _ List.mem_cons_self) (by decide)
  · rfl

theorem readYear_yearText (year : Int) : readYear (Timestamp.yearText year).toList = year := by
  unfold Timestamp.yearText
  split_ifs with hbefore hafter
  · rw [String.toList_append]
    show -((Nat.ofDigitChars 10 (Numeral.decimal 4 year.natAbs).toList 0 : Nat) : Int) = year
    rw [Numeral.ofDigitChars_decimal]
    omega
  · rw [String.toList_append]
    show ((Nat.ofDigitChars 10 (Numeral.decimal 4 year.natAbs).toList 0 : Nat) : Int) = year
    rw [Numeral.ofDigitChars_decimal]
    omega
  · rw [readYear_of_isDigit Numeral.isDigit_of_mem_decimal, Numeral.ofDigitChars_decimal]
    omega

section

variable {n : Nat} (h : n < 100)
include h

theorem length_two : (Timestamp.two n).toList.length = 2 :=
  Numeral.length_decimal (by decide) h

theorem readTwo_zero (cs : List Char) : readTwo 0 ((Timestamp.two n).toList ++ cs) = n := by
  rw [readTwo, List.drop_zero, List.take_left' (length_two h)]
  exact Numeral.ofDigitChars_decimal 2 n

theorem readTwo_add_two (k : Nat) (cs : List Char) :
    readTwo (k + 2) ((Timestamp.two n).toList ++ cs) = readTwo k cs := by
  rw [readTwo, readTwo, Nat.add_comm, ← List.drop_drop, List.drop_left' (length_two h)]

end

end Moment

namespace Timestamp

variable {t : Timestamp}

theorem bounds (h : t.nanos < 2000000000) :
    (1 ≤ t.date.month ∧ t.date.month ≤ 12) ∧ (1 ≤ t.date.day ∧ t.date.day ≤ 31) ∧ t.hour < 24 ∧
      t.minute < 60 ∧ t.second ≤ 60 := by
  obtain ⟨hmonth, hday⟩ := CivilDate.isGregorian_ofDays (t.seconds / 86400)
  have hlength := CivilDate.monthLength_bounds t.date.year t.date.month
  refine ⟨hmonth, ⟨hday.1, hday.2.trans hlength.2⟩, ?_⟩
  simp only [hour, minute, second, secondOfDay]
  omega

/-- The digits after the year. -/
def afterYear (t : Timestamp) : List Char :=
  (two t.date.month.toNat).toList ++ ((two t.date.day.toNat).toList ++
    ((two t.hour).toList ++ ((two t.minute).toList ++ ((two t.second).toList ++ []))))

theorem toList_compact (t : Timestamp) :
    t.compact.toList = (yearText t.date.year).toList ++ t.afterYear := by
  simp [compact, afterYear]

/-- A time that was written is read back to the second. -/
theorem read_compact (h : t.nanos < 2000000000) : Moment.read t.compact = t.moment := by
  obtain ⟨hmonth, hday, hhour, hminute, hsecond⟩ := bounds h
  have hmonth' : t.date.month.toNat < 100 := by omega
  have hday' : t.date.day.toNat < 100 := by omega
  have hhour' : t.hour < 100 := by omega
  have hminute' : t.minute < 100 := by omega
  have hsecond' : t.second < 100 := by omega
  have hten : t.afterYear.length = 10 := by
    simp only [afterYear, List.length_append, Moment.length_two, hmonth', hday', hhour', hminute',
      hsecond', List.length_nil]
  have hyear : t.compact.toList.length - 10 = (yearText t.date.year).toList.length := by
    rw [toList_compact, List.length_append, hten, Nat.add_sub_cancel]
  simp only [Moment.read, hyear]
  rw [toList_compact, List.take_left, List.drop_left, afterYear]
  simp only [Moment.readYear_yearText, Moment.readTwo_zero, Moment.readTwo_add_two, hmonth', hday',
    hhour', hminute', hsecond']
  rw [Int.toNat_of_nonneg (by omega), Int.toNat_of_nonneg (by omega)]
  rfl

end Timestamp

end FtpControl

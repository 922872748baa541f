import FtpControl.Proofs.Text.Decoding
import Mathlib.Data.List.DropRight
import Mathlib.Data.List.Forall2

/-!
# The case of letters in bytes

A byte of an ASCII letter is decoded as that letter wherever it stands, and no other bytes spell an
ASCII character. So bytes that are the same but for the case of letters spell texts that are the
same but for it, and are taken apart at the same places.
-/

namespace FtpControl.Text

/-! ## Texts and their ASCII bytes -/

/-- Bytes can be gone through by the ASCII ones among them. -/
@[elab_as_elim]
theorem ascii_induction {motive : List UInt8 → Prop}
    (wide : ∀ p, (∀ b ∈ p, ¬ b < 0x80) → motive p)
    (ascii : ∀ front a back, (∀ b ∈ front, ¬ b < 0x80) → a < 0x80 → motive back →
      motive (front ++ a :: back)) (p : List UInt8) : motive p := by
  -- The bytes in front, of which none was ASCII so far, are carried along.
  suffices hcarried : ∀ front : List UInt8, (∀ b ∈ front, ¬ b < 0x80) → motive (front ++ p) from
    hcarried [] (by simp)
  induction p with
  | nil =>
      intro front hfront
      rw [List.append_nil]
      exact wide front hfront
  | cons b p ih =>
      intro front hfront
      by_cases hb : b < 0x80
      · exact ascii front b p hfront hb (ih [] (by simp))
      · rw [List.append_cons]
        refine ih _ fun c hc => ?_
        rcases List.mem_append.mp hc with hc | hc
        · exact hfront c hc
        · rwa [List.mem_singleton.mp hc]

/-- A character that no ASCII byte but zero stands for. -/
def IsWide (c : Char) : Prop := 128 ≤ c.toNat ∨ c = '\x00'

theorem isWide_ofNat {n : Nat} (h : 128 ≤ n) : IsWide (Char.ofNat n) := by
  by_cases hvalid : n.isValidChar
  · rw [Char.ofNat, dif_pos hvalid]
    exact .inl h
  · rw [Char.ofNat, dif_neg hvalid]
    exact .inr rfl

theorem within_iff {low high b : UInt8} :
    within low high b = true ↔ low.toNat ≤ b.toNat ∧ b.toNat ≤ high.toNat := by
  simp [within, UInt8.le_iff_toNat_le]

theorem isWide_of_two {a : UInt8} (h : within 0xC2 0xDF a = true) (last : Nat) :
    IsWide (Char.ofNat (a.toNat % 32 * 64 + last)) := by
  obtain ⟨hlow, hhigh⟩ := within_iff.mp h
  simp only [UInt8.reduceToNat] at hlow hhigh
  exact isWide_ofNat (by omega)

theorem isWide_of_three {a b : UInt8} (h : within 0xE0 0xEF a = true)
    (hb : secondOfThree a b = true) (last : Nat) :
    IsWide (Char.ofNat ((a.toNat % 16 * 64 + tailBits b) * 64 + last)) := by
  obtain ⟨hlow, hhigh⟩ := within_iff.mp h
  simp only [UInt8.reduceToNat] at hlow hhigh
  apply isWide_ofNat
  by_cases ha : a = 0xE0
  · subst ha
    have hsecond : within 0xA0 0xBF b = true := by simpa [secondOfThree] using hb
    obtain ⟨hsecond, hsecond'⟩ := within_iff.mp hsecond
    simp only [UInt8.reduceToNat, tailBits] at hsecond hsecond' ⊢
    omega
  · have hmore : a.toNat ≠ 0xE0 := fun h => ha (UInt8.toNat_inj.mp h)
    omega

theorem isWide_of_four {a b : UInt8} (h : within 0xF0 0xF4 a = true)
    (hb : secondOfFour a b = true) (third last : Nat) :
    IsWide (Char.ofNat (((a.toNat % 8 * 64 + tailBits b) * 64 + third) * 64 + last)) := by
  obtain ⟨hlow, hhigh⟩ := within_iff.mp h
  simp only [UInt8.reduceToNat] at hlow hhigh
  apply isWide_ofNat
  by_cases ha : a = 0xF0
  · subst ha
    have hsecond : within 0x90 0xBF b = true := by simpa [secondOfFour] using hb
    obtain ⟨hsecond, hsecond'⟩ := within_iff.mp hsecond
    simp only [UInt8.reduceToNat, tailBits] at hsecond hsecond' ⊢
    omega
  · have hmore : a.toNat ≠ 0xF0 := fun h => ha (UInt8.toNat_inj.mp h)
    omega

/-- Without ASCII bytes, no ASCII character is spelled. -/
theorem isWide_of_decodeChars {p : List UInt8} (h : ∀ b ∈ p, ¬ b < 0x80) :
    ∀ c ∈ decodeChars p, IsWide c := by
  have hreplacement : IsWide replacement := .inl (by decide)
  fun_induction decodeChars p <;> simp_all [isWide_of_two, isWide_of_three, isWide_of_four]

section

variable {a : UInt8} (ha : a < 0x80)

include ha

theorem isTail_of_ascii : isTail a = false := by
  unfold isTail within
  grind

theorem secondOfThree_of_ascii (lead : UInt8) : secondOfThree lead a = false := by
  unfold secondOfThree isTail within
  grind

theorem secondOfFour_of_ascii (lead : UInt8) : secondOfFour lead a = false := by
  unfold secondOfFour isTail within
  grind

/-- An ASCII byte breaks off what stands before it, and is decoded as its own character. -/
theorem decodeChars_append_cons (front back : List UInt8) :
    decodeChars (front ++ a :: back) =
      decodeChars front ++ Char.ofNat a.toNat :: decodeChars back := by
  have htail := isTail_of_ascii ha
  have hthree := secondOfThree_of_ascii ha
  have hfour := secondOfFour_of_ascii ha
  have hself := decodeChars_ascii ha back
  fun_induction decodeChars front <;>
    (simp only [List.nil_append, List.cons_append] at *
     rw [decodeChars.eq_def]
     rcases back with _ | ⟨_, _ | _⟩ <;> simp_all [-UInt8.not_lt])

end

/-- The character of an ASCII byte. -/
theorem toNat_ofNat_ascii {a : UInt8} (ha : a < 0x80) : (Char.ofNat a.toNat).toNat = a.toNat := by
  have hlow : a.toNat < 128 := UInt8.lt_iff_toNat_lt.mp ha
  rw [Char.ofNat, dif_pos (.inl (by omega))]
  rfl

/-- An ASCII character is spelled by its own byte only. -/
theorem notMem_decodeChars {a : UInt8} (ha : a < 0x80) (hzero : a ≠ 0) {p : List UInt8}
    (h : a ∉ p) : Char.ofNat a.toNat ∉ decodeChars p := by
  have hwide : ¬ IsWide (Char.ofNat a.toNat) := by
    rintro (hfar | hnull)
    · rw [toNat_ofNat_ascii ha] at hfar
      exact absurd (UInt8.lt_iff_toNat_lt.mp ha) (Nat.not_lt.mpr hfar)
    · have hnumber := congrArg Char.toNat hnull
      rw [toNat_ofNat_ascii ha] at hnumber
      exact hzero (UInt8.toNat_inj.mp hnumber)
  induction p using ascii_induction with
  | wide p hall => exact fun hmem => hwide (isWide_of_decodeChars hall _ hmem)
  | ascii front b back hfront hb ih =>
      simp only [List.mem_append, List.mem_cons, not_or] at h
      rw [decodeChars_append_cons hb, List.mem_append, List.mem_cons, not_or, not_or]
      refine ⟨fun hmem => hwide (isWide_of_decodeChars hfront _ hmem), fun hsame => ?_, ih h.2.2⟩
      have hnumber := congrArg Char.toNat hsame
      rw [toNat_ofNat_ascii ha, toNat_ofNat_ascii hb] at hnumber
      exact h.2.1 (UInt8.toNat_inj.mp hnumber)

/-! ## The case of letters -/

/-- Upper case for the bytes of ASCII letters. -/
def upperByte (b : UInt8) : UInt8 := if 0x61 ≤ b ∧ b ≤ 0x7A then b - 0x20 else b

/-- Whether bytes are the same but for the case of letters. -/
abbrev SameLetters : List UInt8 → List UInt8 → Prop :=
  List.Forall₂ fun a b => upperByte a = upperByte b

theorem upperByte_of_wide {b : UInt8} (h : ¬ b < 0x80) : upperByte b = b := by
  unfold upperByte
  grind

theorem upperByte_ascii {b : UInt8} (h : b < 0x80) : upperByte b < 0x80 := by
  unfold upperByte
  grind

theorem ofNat_upperByte {b : UInt8} (h : b < 0x80) :
    Char.ofNat (upperByte b).toNat = (Char.ofNat b.toNat).toUpper := by
  have hall : ∀ n < 128, Char.ofNat (upperByte (UInt8.ofNat n)).toNat =
      (Char.ofNat (UInt8.ofNat n).toNat).toUpper := by decide
  have hb := hall b.toNat (UInt8.lt_iff_toNat_lt.mp h)
  rwa [UInt8.ofNat_toNat] at hb

theorem toUpper_of_isWide {c : Char} (h : IsWide c) : c.toUpper = c := by
  rcases h with hfar | rfl
  · refine dif_neg fun hlower => ?_
    have hz : c.toNat ≤ 'z'.toNat := hlower.2
    exact absurd (Nat.le_trans hfar hz) (by decide)
  · rfl

/-- Bytes in upper case are decoded as a text in upper case. -/
theorem decodeChars_map_upperByte (p : List UInt8) :
    decodeChars (p.map upperByte) = (decodeChars p).map Char.toUpper := by
  have hfixed : ∀ front : List UInt8, (∀ b ∈ front, ¬ b < 0x80) →
      front.map upperByte = front ∧ (decodeChars front).map Char.toUpper = decodeChars front := by
    intro front hfront
    have hbytes := List.map_congr_left fun b hb => upperByte_of_wide (hfront b hb)
    have hchars := List.map_congr_left fun c hc =>
      toUpper_of_isWide (isWide_of_decodeChars hfront c hc)
    exact ⟨hbytes.trans (List.map_id' _), hchars.trans (List.map_id' _)⟩
  induction p using ascii_induction with
  | wide p hall =>
      obtain ⟨hbytes, hchars⟩ := hfixed p hall
      rw [hbytes, hchars]
  | ascii front b back hfront hb ih =>
      obtain ⟨hbytes, hchars⟩ := hfixed front hfront
      rw [List.map_append, List.map_cons, hbytes, decodeChars_append_cons (upperByte_ascii hb),
        decodeChars_append_cons hb, List.map_append, List.map_cons, hchars, ih, ofNat_upperByte hb]

namespace SameLetters

variable {p q : List UInt8}

theorem map_eq (h : SameLetters p q) : p.map upperByte = q.map upperByte := by
  induction h with
  | nil => rfl
  | cons hb _ ih => rw [List.map_cons, List.map_cons, hb, ih]

/-- The texts that such bytes spell are the same in upper case. -/
theorem upper_eq (h : SameLetters p q) : upper (ofBytesLossy p) = upper (ofBytesLossy q) := by
  simp only [upper, ofBytesLossy, String.toList_ofList, ← decodeChars_map_upperByte, h.map_eq]

end SameLetters

/-- A byte below the letters or beyond them is the only one that is like it. -/
theorem eq_of_upperByte {a b : UInt8} (ha : a < 0x41 ∨ 0x7A < a)
    (h : upperByte a = upperByte b) : b = a := by
  unfold upperByte at h
  grind

/-- A byte without case is in bytes where it is in bytes like them. -/
theorem SameLetters.notMem {p q : List UInt8} (h : SameLetters p q) {a : UInt8}
    (ha : a < 0x41 ∨ 0x7A < a) (hp : a ∉ p) : a ∉ q := by
  induction h with
  | nil => exact hp
  | cons hb _ ih =>
      rw [List.mem_cons, not_or] at hp ⊢
      refine ⟨fun hsame => hp.1 ?_, ih hp.2⟩
      subst hsame
      exact (eq_of_upperByte ha hb.symm).symm

/-! ## Trimming -/

theorem isLineEnd_toUpper (c : Char) : isLineEnd c.toUpper = isLineEnd c := by
  have hascii : ∀ n < 128, isLineEnd (Char.ofNat n).toUpper = isLineEnd (Char.ofNat n) := by decide
  by_cases h : c.toNat < 128
  · have hc := hascii c.toNat h
    rwa [Char.ofNat_toNat] at hc
  · rw [toUpper_of_isWide (.inl (Nat.not_lt.mp h))]

theorem trimChars_map_toUpper (cs : List Char) :
    trimChars (cs.map Char.toUpper) = (trimChars cs).map Char.toUpper := by
  have hends : isLineEnd ∘ Char.toUpper = isLineEnd := funext isLineEnd_toUpper
  rw [trimChars, trimChars, ← List.map_reverse, List.dropWhile_map, hends, List.map_reverse]

theorem upper_trimLineEnd (s : String) : upper (trimLineEnd s) = trimLineEnd (upper s) := by
  simp only [upper, trimLineEnd, String.toList_ofList, trimChars_map_toUpper]

theorem mem_of_mem_trimChars {c : Char} {cs : List Char} (h : c ∈ trimChars cs) : c ∈ cs := by
  rw [trimChars, List.mem_reverse] at h
  exact List.mem_reverse.mp ((List.dropWhile_suffix _).mem h)

theorem trimChars_trimChars (cs : List Char) : trimChars (trimChars cs) = trimChars cs := by
  rw [trimChars, trimChars, List.reverse_reverse, List.dropWhile_idempotent]

/-! ## Lines that ask for the same -/

/-- Whether bytes are the same but for the case of letters in their first word. -/
inductive SameButWord : List UInt8 → List UInt8 → Prop where
  | alone {p q} (hspace : 0x20 ∉ p) (h : SameLetters p q) : SameButWord p q
  | followed {word word'} (hspace : 0x20 ∉ word) (h : SameLetters word word')
      (rest : List UInt8) : SameButWord (word ++ 0x20 :: rest) (word' ++ 0x20 :: rest)

/-- Whether lines are the same but for the case of letters in their verb, and in the word after the
verbs that have a keyword there. -/
inductive SameRequest : List UInt8 → List UInt8 → Prop where
  | verb {p q} (h : SameButWord p q) : SameRequest p q
  | keyword {word word' rest rest'} (hverb : upper (ofBytesLossy word) ∈ ["OPTS", "SITE"])
      (hspace : 0x20 ∉ word) (hword : SameLetters word word') (h : SameButWord rest rest') :
      SameRequest (word ++ 0x20 :: rest) (word' ++ 0x20 :: rest')

end FtpControl.Text

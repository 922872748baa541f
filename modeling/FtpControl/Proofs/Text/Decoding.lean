import FtpControl.Proofs.Text.Encoding
import FtpControl.Text.Ascii
import FtpControl.Text.Lossy
import FtpControl.Text.Split

/-!
# Words at the front of a line

A word in ASCII stands at the front of a line as it was sent, whatever follows: decoding, trimming
and cutting leave it alone. Which word is meant does not depend on the case of its letters.
-/

namespace FtpControl.Text

/-! ## Decoding and trimming -/

/-- The byte of an ASCII character is in the bytes of a text only if the character is in it. -/
theorem notMem_encode {a : Char} (ha : a.toNat < 128) {cs : List Char} (h : a ∉ cs) :
    UInt8.ofNat a.toNat ∉ encode cs := by
  induction cs with
  | nil => simp
  | cons c cs ih =>
      rw [List.mem_cons, not_or] at h
      rw [encode_cons, List.mem_append, not_or]
      exact ⟨notMem_encodeChar ha (Ne.symm h.1), ih h.2⟩

/-- ASCII characters are decoded as they were sent, whatever bytes follow. -/
theorem decodeChars_encode_append {cs : List Char} (h : ∀ c ∈ cs, c.toNat < 128)
    (rest : List UInt8) : decodeChars (encode cs ++ rest) = cs ++ decodeChars rest := by
  induction cs with
  | nil => rfl
  | cons c cs ih =>
      rw [List.forall_mem_cons] at h
      have hbyte : (UInt8.ofNat c.toNat).toNat = c.toNat := by
        rw [UInt8.toNat_ofNat']
        omega
      have hlow : UInt8.ofNat c.toNat < 0x80 := by
        rw [UInt8.lt_iff_toNat_lt, hbyte]
        exact h.1
      rw [encode_cons, encodeChar_of_ascii h.1, List.singleton_append, List.cons_append,
        decodeChars_ascii hlow, hbyte, ih h.2, Char.ofNat_toNat, List.cons_append]

/-- Only what follows the last character that ends no line is trimmed. -/
theorem trimChars_append_cons {c : Char} (h : isLineEnd c = false) (front back : List Char) :
    trimChars (front ++ c :: back) = front ++ c :: trimChars back := by
  rw [trimChars, trimChars, List.reverse_append, List.reverse_cons, List.append_assoc,
    List.dropWhile_append]
  by_cases hback : (back.reverse.dropWhile isLineEnd).isEmpty = true
  · rw [List.isEmpty_iff] at hback
    simp [hback, h]
  · simp [hback]

theorem cutChars_append_cons {sep : Char} {front : List Char} (h : sep ∉ front)
    (back : List Char) : cutChars sep (front ++ sep :: back) = some (front, back) := by
  induction front with
  | nil => simp
  | cons c front ih =>
      rw [List.mem_cons, not_or] at h
      simp [cutChars, Ne.symm h.1, ih h.2]

theorem cut?_of_notMem {sep : Char} {s : String} (h : sep ∉ s.toList) : cut? sep s = none := by
  rw [cut?, Option.map_eq_none_iff]
  cases hcut : cutChars sep s.toList with
  | none => rfl
  | some pieces =>
      rw [append_of_cutChars hcut] at h
      exact absurd (by simp) h

/-- Cutting a text gives what stands before its first separator, and what stands after it. -/
theorem cut?_eq_some_iff {sep : Char} {s front back : String} :
    cut? sep s = some (front, back) ↔
      sep ∉ front.toList ∧ s.toList = front.toList ++ sep :: back.toList := by
  rw [cut?, Option.map_eq_some_iff]
  constructor
  · rintro ⟨⟨before, rest⟩, hcut, heq⟩
    simp only [Prod.mk.injEq] at heq
    obtain ⟨rfl, rfl⟩ := heq
    rw [String.toList_ofList, String.toList_ofList]
    exact ⟨notMem_of_cutChars hcut, append_of_cutChars hcut⟩
  · rintro ⟨hfront, htext⟩
    exact ⟨(front.toList, back.toList), htext ▸ cutChars_append_cons hfront _, by simp⟩

/-- What stands before and after the first separator, put together. -/
theorem cut?_join {sep : Char} {front : String} (h : sep ∉ front.toList) (back : String) :
    cut? sep (front ++ .singleton sep ++ back) = some (front, back) :=
  cut?_eq_some_iff.mpr ⟨h, by simp⟩

theorem cutUpTo_ne_nil (sep : Char) (n : Nat) (s : String) : cutUpTo sep n s ≠ [] := by
  cases n with
  | zero => simp [cutUpTo]
  | succ n =>
      rw [cutUpTo]
      split <;> simp

/-- Cutting a text at its first spaces loses nothing of it. -/
theorem intercalate_cutUpTo (n : Nat) (s : String) :
    " ".intercalate (cutUpTo ' ' n s) = s := by
  induction n generalizing s with
  | zero => rw [cutUpTo, String.intercalate_singleton]
  | succ n ih =>
      rw [cutUpTo]
      cases hcut : cut? ' ' s with
      | none => exact String.intercalate_singleton
      | some parts =>
          obtain ⟨front, back⟩ := parts
          simp only
          rw [String.intercalate_cons_of_ne_nil (cutUpTo_ne_nil ' ' n back), ih]
          apply String.toList_injective
          rw [(cut?_eq_some_iff.mp hcut).2]
          simp

/-- A text with a separator in it is one text in front of the first, and one behind it. -/
theorem exists_join {sep : Char} {s : String} (h : sep ∈ s.toList) :
    ∃ front back, sep ∉ front.toList ∧ s = front ++ .singleton sep ++ back := by
  obtain ⟨front, back, htext, hfront⟩ := List.eq_append_cons_of_mem h
  refine ⟨.ofList front, .ofList back, by simpa using hfront, String.toList_injective ?_⟩
  simp [htext]

/-! ## Words in any case -/

theorem toNat_lt_of_toUpper {c : Char} (h : c.toUpper.toNat < 128) : c.toNat < 128 := by
  by_cases hlower : 'a'.val ≤ c.val ∧ c.val ≤ 'z'.val
  · have hz : c.toNat ≤ 'z'.toNat := hlower.2
    exact Nat.lt_of_le_of_lt hz (by decide)
  · have hsame : c.toUpper = c := dif_neg hlower
    rwa [hsame] at h

/-- A word that means an ASCII one is an ASCII one. -/
theorem ascii_of_upper {s t : String} (h : upper s = t)
    (ht : t.toList.all fun c => c.toNat < 128) : ∀ c ∈ s.toList, c.toNat < 128 := by
  intro c hc
  apply toNat_lt_of_toUpper
  have hupper : c.toUpper ∈ t.toList := by
    rw [← h, toList_upper]
    exact List.mem_map_of_mem hc
  simpa using List.all_eq_true.mp ht _ hupper

/-- A character without case is in a word where it is in the word in upper case. -/
theorem notMem_of_upper {a : Char} (ha : a.toUpper = a) {s t : String} (h : upper s = t)
    (ht : a ∉ t.toList) : a ∉ s.toList := by
  intro hs
  apply ht
  rw [← h, toList_upper, ← ha]
  exact List.mem_map_of_mem hs

end FtpControl.Text

import FtpControl.Proofs.Text.Cutting
import FtpControl.Text.Bytes

/-!
# Characters as bytes

An ASCII character is one byte below 128, and every other character is made of bytes from 128 on.
So the bytes of a text can be cut where the text can be cut, at any ASCII character.
-/

namespace FtpControl.Text

def encode (cs : List Char) : List UInt8 := cs.flatMap String.utf8EncodeChar

@[simp] theorem encode_nil : encode [] = [] := rfl

@[simp] theorem encode_cons (c : Char) (cs : List Char) :
    encode (c :: cs) = String.utf8EncodeChar c ++ encode cs := rfl

@[simp] theorem encode_append (cs ds : List Char) : encode (cs ++ ds) = encode cs ++ encode ds := by
  simp [encode]

theorem bytes_eq_encode (s : String) : bytes s = encode s.toList := by
  rw [bytes, String.toUTF8_eq_toByteArray, ← String.utf8Encode_toList, List.utf8Encode]
  simp [encode]

theorem encodeChar_of_ascii {c : Char} (h : c.toNat < 128) :
    String.utf8EncodeChar c = [UInt8.ofNat c.toNat] := by
  have hle : c.val.toNat ≤ 0x7F := Nat.le_of_lt_succ h
  simp only [String.utf8EncodeChar, hle, if_true]
  rfl

/-- Every byte of any other character is from 128 on. -/
theorem le_of_mem_encodeChar {c : Char} (h : 128 ≤ c.toNat) {b : UInt8}
    (hb : b ∈ String.utf8EncodeChar c) : 128 ≤ b.toNat := by
  have hlt : ¬ c.val.toNat ≤ 0x7F := Nat.not_le_of_lt h
  simp only [String.utf8EncodeChar, hlt, if_false] at hb
  split at hb
  · simp only [List.mem_cons, List.not_mem_nil, or_false] at hb
    rcases hb with rfl | rfl <;> simp <;> omega
  · split at hb
    · simp only [List.mem_cons, List.not_mem_nil, or_false] at hb
      rcases hb with rfl | rfl | rfl <;> simp <;> omega
    · simp only [List.mem_cons, List.not_mem_nil, or_false] at hb
      rcases hb with rfl | rfl | rfl | rfl <;> simp <;> omega

/-- The byte of an ASCII character is in no other character. -/
theorem notMem_encodeChar {a c : Char} (ha : a.toNat < 128) (hne : c ≠ a) :
    UInt8.ofNat a.toNat ∉ String.utf8EncodeChar c := by
  intro hmem
  have hbyte : (UInt8.ofNat a.toNat).toNat = a.toNat := by
    rw [UInt8.toNat_ofNat']
    omega
  by_cases hc : c.toNat < 128
  · rw [encodeChar_of_ascii hc, List.mem_singleton] at hmem
    have hnat : a.toNat = c.toNat := by
      have hsame := congrArg UInt8.toNat hmem
      rw [hbyte, UInt8.toNat_ofNat'] at hsame
      omega
    exact hne (Char.toNat_inj.mp hnat.symm)
  · have hle := le_of_mem_encodeChar (Nat.le_of_not_lt hc) hmem
    omega

/-- Cutting the bytes of a text at an ASCII character is cutting the text. -/
theorem cutAfter_encode {sep : Char} (h : sep.toNat < 128) (cs : List Char) :
    cutAfter (UInt8.ofNat sep.toNat) (encode cs) =
      ((cutAfter sep cs).1.map encode, encode (cutAfter sep cs).2) := by
  induction cs with
  | nil => rfl
  | cons c cs ih =>
      rw [encode_cons, cutAfter]
      by_cases hc : c = sep
      · subst hc
        rw [encodeChar_of_ascii h, List.singleton_append, cutAfter, ih]
        simp [encodeChar_of_ascii h]
      · rw [cutAfter_append_of_notMem (notMem_encodeChar h hc), ih]
        rcases cutAfter sep cs with ⟨_ | ⟨piece, pieces⟩, rest⟩ <;> simp [hc]

/-- The bytes of a text start with an ASCII character exactly if the text does. -/
theorem head?_encode {a : Char} (h : a.toNat < 128) (cs : List Char) :
    (encode cs).head? = some (UInt8.ofNat a.toNat) ↔ cs.head? = some a := by
  cases cs with
  | nil => simp
  | cons c cs =>
      by_cases hc : c = a
      · subst hc
        simp [encodeChar_of_ascii h]
      · have hno := notMem_encodeChar h hc
        cases henc : String.utf8EncodeChar c with
        | nil => exact absurd henc String.utf8EncodeChar_ne_nil
        | cons b bs =>
            rw [henc, List.mem_cons, not_or] at hno
            simp [henc, hc, Ne.symm hno.1]

end FtpControl.Text

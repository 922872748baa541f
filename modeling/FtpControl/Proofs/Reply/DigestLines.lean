import FtpControl.Proofs.Reply.Integrity

/-!
# The lines that tell a digest

A digest is told in two lines: the first names the algorithm, and the last ends in the digest in
lowercase hexadecimal.
-/

namespace FtpControl

open Text

/-! ## Lowercase hexadecimal -/

namespace Numeral

def isHexDigit (c : Char) : Bool := c.isDigit || ('a' ≤ c && c ≤ 'f')

theorem isHexDigit_hexDigit (n : Nat) : isHexDigit (hexDigit n) = true := by
  have hall : ∀ k < 16, isHexDigit (Nat.digitChar k) = true := by decide
  exact hall _ (Nat.mod_lt n (by decide))

theorem all_isHexDigit_hexBytes (bytes : List UInt8) :
    (hexBytes bytes).toList.all isHexDigit = true := by
  simp [hexBytes, isHexDigit_hexDigit]

theorem hexBytes_ne_empty {bytes : List UInt8} (h : bytes ≠ []) : hexBytes bytes ≠ "" := by
  cases bytes with
  | nil => exact absurd rfl h
  | cons b bytes =>
      intro hempty
      simpa [hexBytes] using congrArg String.toList hempty

theorem isSingle_of_all_isHexDigit {s : String}
    (h : s.toList.all isHexDigit = true) : IsSingle s := by
  intro hfeed
  exact absurd (List.all_eq_true.mp h '\n' hfeed) (by decide)

end Numeral

namespace DigestEngine

theorem digest_ne_nil (engine : DigestEngine) : engine.digest ≠ [] := by
  have hbig : ∀ w, Digest.bigEndian 4 w ≠ [] := by simp [Digest.bigEndian]
  have hwide : ∀ w, Digest.bigEndian 8 w ≠ [] := by simp [Digest.bigEndian]
  have hlittle : ∀ w, Digest.littleEndian 4 w ≠ [] := by simp [Digest.littleEndian]
  cases engine with
  | crc32 => exact List.cons_ne_nil _ _
  | md5 => simp [digest, Digest.BlockHash.finish, Digest.Md5.hash, Digest.Md5.result, hlittle]
  | sha1 => simp [digest, Digest.BlockHash.finish, Digest.Sha1.hash, Digest.Sha1.result, hbig]
  | sha256 =>
      simp [digest, Digest.BlockHash.finish, Digest.Sha256.hash, Digest.Sha256.result, hbig]
  | sha512 =>
      simp [digest, Digest.BlockHash.finish, Digest.Sha512.hash, Digest.Sha512.result, hwide]

theorem all_isHexDigit_hex (engine : DigestEngine) :
    engine.hex.toList.all Numeral.isHexDigit = true := Numeral.all_isHexDigit_hexBytes _

theorem hex_ne_empty (engine : DigestEngine) : engine.hex ≠ "" :=
  Numeral.hexBytes_ne_empty engine.digest_ne_nil

end DigestEngine

/-! ## Messages of two lines -/

theorem Text.lineChars_append_crlf {front : List Char} (h : '\n' ∉ front) (cs : List Char) :
    lineChars (front ++ '\r' :: '\n' :: cs) = front :: lineChars cs := by
  induction front with
  | nil => rfl
  | cons c front ih =>
      rw [List.mem_cons, not_or] at h
      have hcr : c = '\r' → (front ++ '\r' :: '\n' :: cs).head? ≠ some '\n' := by
        intro _ hhead
        cases front with
        | nil => simp at hhead
        | cons d front =>
            obtain rfl : d = '\n' := by simpa using hhead
            exact h.2 List.mem_cons_self
      rw [List.cons_append, lineChars.eq_4, ih h.2]
      · intro hc
        exact h.1 hc.symm
      · intro rest hc hrest
        exact hcr hc (by rw [hrest]; rfl)

theorem Text.lineChars_of_notMem {cs : List Char} (h : '\n' ∉ cs) (hne : cs ≠ []) :
    lineChars cs = [cs] := by
  induction cs with
  | nil => exact absurd rfl hne
  | cons c cs ih =>
      rw [List.mem_cons, not_or] at h
      rw [lineChars.eq_4]
      · by_cases hcs : cs = []
        · rw [hcs]
          rfl
        · rw [ih h.2 hcs]
      · intro hc
        exact h.1 hc.symm
      · rintro rest - rfl
        exact h.2 List.mem_cons_self

/-- A message of two lines is a block without a body. -/
theorem Reply.messageText_two {first last : String} (code : Nat) (hfirst : IsSingle first)
    (hlast : IsSingle last) (hne : last ≠ "") :
    messageText code (first ++ "\r\n" ++ last) = opening code first ++ line code last := by
  have hlines : lines (first ++ "\r\n" ++ last) = [first, last] := by
    have htext : (first ++ "\r\n" ++ last).toList =
        first.toList ++ '\r' :: '\n' :: last.toList := by simp
    have hnil : last.toList ≠ [] := fun h => hne (String.toList_eq_nil_iff.mp h)
    rw [lines, htext, lineChars_append_crlf hfirst, lineChars_of_notMem hlast hnil]
    simp
  rw [messageText, hlines]
  rfl

/-! ## Digests as they are told -/

theorem HashAlgorithm.isSingle_name (a : HashAlgorithm) : IsSingle a.name := by
  cases a <;> decide

theorem Digests.render_heading_append {a : HashAlgorithm} {code : Nat} {last : String}
    (hlast : IsSingle last) (hne : last ≠ "") :
    (Reply.message code (heading a ++ last)).render =
      Reply.codeText code ++ "-Computing " ++ a.name ++ " digest\r\n" ++ Reply.codeText code ++
        " " ++ last ++ "\r\n" := by
  have hfirst : IsSingle ("Computing " ++ a.name ++ " digest") :=
    (IsSingle.append (by decide) a.isSingle_name).append (by decide)
  have hheading : heading a = "Computing " ++ a.name ++ " digest" ++ "\r\n" := by
    cases a <;> decide
  have htwo := Reply.messageText_two code hfirst hlast hne
  rw [Reply.render, hheading, htwo, Reply.opening, Reply.line]
  apply String.toList_injective
  simp

end FtpControl

/-!
# TLS records

Under TLS bytes travel in records. A record starts with a header: the type of its content, a
version, and the length of what follows. Bytes with which no record starts are known for that at
once; others are taken in until the record is whole. Text is cut into records of bounded length,
and every one of them is longer than the text in it.
-/

namespace FtpControl

/-- What stands at the front of bytes. -/
inductive TlsRecord where
  /-- A whole record, and what follows it. -/
  | whole (type : UInt8) (body rest : List UInt8)
  /-- The beginning of a record. -/
  | pending
  /-- Bytes with which no record starts. -/
  | refused
  deriving DecidableEq, Repr

namespace TlsRecord

def headerSize : Nat := 5

/-- The most bytes of text in a record. -/
def textLimit : Nat := 16384

/-- The length from which on a record is refused; the header does not count. -/
def lengthLimit : Nat := textLimit + 2048

/-- The bytes that sealing adds to a text: the type of the content and the tag. -/
def sealSize : Nat := 17

/-- The bytes that a record has beside its text. -/
def overhead : Nat := headerSize + sealSize

/-- The bytes of an alert, such as the one that announces the end of a stream. -/
def alertSize : Nat := 2

def alertType : UInt8 := 0x15

def handshakeType : UInt8 := 0x16

def sealedType : UInt8 := 0x17

/-- Whether a type of content exists: a change of cipher, an alert, a handshake, sealed content, or
a heartbeat. -/
def isContentType (type : UInt8) : Bool := 0x14 ≤ type && type ≤ 0x18

/-- Whether a version exists: the second one, any of the third, or one for datagrams. -/
def isVersion (major minor : UInt8) : Bool :=
  major = 3 || (major, minor) ∈ [(0x00, 0x02), (0xFE, 0xFC), (0xFE, 0xFD), (0xFE, 0xFF)]

/-- Whether a record may have a length: only sealed ones may be empty. -/
def isLength (type : UInt8) (length : Nat) : Bool :=
  (type = sealedType || length ≠ 0) && length < lengthLimit

/-! ## From the first byte to the last -/

def ofBytes : List UInt8 → TlsRecord
  | type :: major :: minor :: high :: low :: bytes =>
      let length := high.toNat * 256 + low.toNat
      if isContentType type && isVersion major minor && isLength type length then
        if bytes.length < length then pending
        else whole type (bytes.take length) (bytes.drop length)
      else refused
  | type :: major :: minor :: _ =>
      if isContentType type && isVersion major minor then pending else refused
  | type :: _ => if isContentType type then pending else refused
  | [] => pending

/-- A record takes its header and its body from the front of the bytes. -/
theorem length_of_whole {type : UInt8} {bytes body rest : List UInt8}
    (h : ofBytes bytes = whole type body rest) :
    bytes.length = headerSize + body.length + rest.length := by
  unfold ofBytes at h
  split at h
  · simp only at h
    split at h
    · split at h
      · simp at h
      · simp only [whole.injEq] at h
        obtain ⟨-, rfl, rfl⟩ := h
        simp only [List.length_cons, List.length_take, List.length_drop, headerSize]
        omega
    · simp at h
  · split at h <;> simp at h
  · split at h <;> simp at h
  · simp at h

/-! ## Sealed text -/

/-- Text of some length in records, as they look from outside: zeros stand for what is sealed. -/
def sealed (length : Nat) : List UInt8 :=
  if length = 0 then []
  else
    let part := min length textLimit + sealSize
    [sealedType, 3, 3, UInt8.ofNat (part / 256), UInt8.ofNat part] ++ List.replicate part 0 ++
      sealed (length - textLimit)
termination_by length
decreasing_by simp only [textLimit]; omega

/-- What of a text gets through in whole records when the peer takes only so many bytes, and how
many it takes after that if all of it got through. -/
def deliver (room : Nat) (text : List UInt8) : List UInt8 × Option Nat :=
  if text = [] then ([], some room)
  else
    let part := text.take textLimit
    if part.length + overhead ≤ room then
      let (more, left) := deliver (room - (part.length + overhead)) (text.drop textLimit)
      (part ++ more, left)
    else ([], none)
termination_by text.length
decreasing_by
  simp only [List.length_drop, textLimit]
  have := List.length_pos_iff.2 ‹text ≠ []›
  omega

/-- What gets through stands at the front of the text. -/
theorem deliver_append (room : Nat) (text : List UInt8) :
    ∃ rest, text = (deliver room text).1 ++ rest := by
  fun_induction deliver with
  | case1 => exact ⟨[], rfl⟩
  | case2 room text hne part hfit more left hd ih =>
      obtain ⟨rest, hrest⟩ := ih
      refine ⟨rest, ?_⟩
      rw [hd] at hrest
      simp only at hrest ⊢
      rw [List.append_assoc, ← hrest]
      exact (List.take_append_drop textLimit text).symm
  | case3 room text => exact ⟨text, rfl⟩

end TlsRecord

end FtpControl

import FtpControl.Channel.TlsRecord
import FtpControl.Journal

/-!
# The receiving side of a connection

Bytes arrive in pieces. The server takes them from the stream in blocks, never more than one piece
at a time, and holds the bytes of a block until they are consumed one by one. A stream that has not
ended and has nothing to give keeps the server waiting.
-/

namespace FtpControl

/-- What a peer puts on a connection. -/
inductive Arrival where
  /-- Bytes in one piece, as they are or protected. -/
  | bytes (via : Protection) (data : List UInt8)
  /-- The peer's part of a TLS handshake. -/
  | handshake
  /-- A fault, met by the read that gets there. -/
  | fault (fault : IoFault)
  /-- The end of the stream; under TLS the peer may or may not announce it. -/
  | finish (announced : Bool)
  deriving DecidableEq, Repr

/-- The receiving side: bytes taken from the stream but not consumed, and what is still on the
stream. -/
structure Inlet where
  held : List UInt8 := []
  incoming : List Arrival := []
  deriving DecidableEq, Repr

/-- What one attempt to consume a byte gives. -/
inductive Pull where
  | byte (b : UInt8) (rest : Inlet)
  | ended
  | failed (fault : IoFault) (rest : Inlet)
  | waiting
  deriving DecidableEq, Repr

namespace Inlet

/-- The most bytes taken from the stream at a time. -/
def blockSize : Nat := 8192

/-- The fault of bytes that are not what the protection of the channel demands. -/
def garbled : IoFault := .plain .invalidData

/-- The fault of a TLS stream that ends without being announced. -/
def cutOff : IoFault :=
  .custom .unexpectedEof "peer closed connection without sending TLS close_notify"

/-- The rest of a piece goes back on the stream, unless nothing is left of it. -/
def putBack (via : Protection) (data : List UInt8) (incoming : List Arrival) : List Arrival :=
  match data with
  | [] => incoming
  | _ => .bytes via data :: incoming

def onStream (via : Protection) (data : List UInt8) : List UInt8 :=
  match via with
  | .clear => data
  | .tls => TlsRecord.sealed data.length

/-- Whether a read goes on in spite of a fault: one that was interrupted is tried again, and under
TLS one that found nothing is as good as none. -/
def isPassing (via : Protection) (fault : IoFault) : Bool :=
  fault.kind = .interrupted || (via = .tls && fault.kind = .wouldBlock)

/-- What becomes of a read that meets bytes of the wrong kind, of which some were `seen`: it takes
them for the beginning of a record, and fails once they are none or the record is whole. -/
def stray (via : Protection) (whole : List Arrival) : List UInt8 → List Arrival → Pull
  | _, [] => .waiting
  | seen, .bytes v data :: more =>
      if TlsRecord.ofBytes (seen ++ onStream v data) = .pending then
        stray via whole (seen ++ onStream v data) more
      else .failed garbled ⟨[], whole⟩
  | _, .handshake :: _ => .failed garbled ⟨[], whole⟩
  | seen, .fault f :: more =>
      if isPassing via f then stray via whole seen more else .failed f ⟨[], more⟩
  | seen, .finish announced :: _ =>
      let seen := if announced then seen ++ TlsRecord.sealed TlsRecord.alertSize else seen
      .failed (if TlsRecord.ofBytes seen = .pending then cutOff else garbled) ⟨[], whole⟩

/-- Takes the next block from the stream and consumes its first byte. -/
def refill (via : Protection) : List Arrival → Pull
  | [] => .waiting
  | .bytes _ [] :: more => refill via more
  | .bytes v (b :: data) :: more =>
      if v = via then
        .byte b ⟨data.take (blockSize - 1), putBack v (data.drop (blockSize - 1)) more⟩
      else stray via (.bytes v (b :: data) :: more) [] (.bytes v (b :: data) :: more)
  | .handshake :: more => .failed garbled ⟨[], .handshake :: more⟩
  | .fault f :: more => if isPassing via f then refill via more else .failed f ⟨[], more⟩
  | .finish announced :: more =>
      if via = .tls ∧ announced = false then .failed cutOff ⟨[], .finish announced :: more⟩
      else .ended

def next (via : Protection) (i : Inlet) : Pull :=
  match i.held with
  | b :: held => .byte b ⟨held, i.incoming⟩
  | [] => refill via i.incoming

/-! ## How much there is to consume -/

/-- What an arrival adds to the weight of a stream. -/
def arrivalWeight : Arrival → Nat
  | .bytes _ data => data.length + 1
  | _ => 1

/-- A bound on the number of steps that a stream has in it. -/
def streamWeight : List Arrival → Nat
  | [] => 0
  | a :: more => arrivalWeight a + streamWeight more

/-- A bound on the number of steps that a receiving side has in it. -/
def weight (i : Inlet) : Nat := i.held.length + streamWeight i.incoming

@[simp] theorem streamWeight_nil : streamWeight [] = 0 := rfl

@[simp] theorem streamWeight_cons (a : Arrival) (more : List Arrival) :
    streamWeight (a :: more) = arrivalWeight a + streamWeight more := rfl

theorem streamWeight_putBack_le (via : Protection) (data : List UInt8) (more : List Arrival) :
    streamWeight (putBack via data more) ≤ data.length + 1 + streamWeight more := by
  cases data <;> simp [putBack, arrivalWeight]

theorem stray_ne_byte (via : Protection) (whole : List Arrival) (seen : List UInt8)
    (incoming : List Arrival) (b : UInt8) (rest : Inlet) :
    stray via whole seen incoming ≠ .byte b rest := by
  fun_induction stray with
  | case2 _ _ _ _ _ ih => exact ih
  | case5 _ _ _ _ ih => exact ih
  | _ => simp

theorem weight_lt_of_refill {via : Protection} {incoming : List Arrival} {b : UInt8}
    {rest : Inlet} (h : refill via incoming = .byte b rest) :
    rest.weight < streamWeight incoming := by
  fun_induction refill with
  | case1 => simp at h
  | case2 v more ih =>
      have := ih h
      simp only [streamWeight_cons]
      omega
  | case3 c data more =>
      simp only [Pull.byte.injEq] at h
      obtain ⟨rfl, rfl⟩ := h
      have hb := streamWeight_putBack_le via (data.drop (blockSize - 1)) more
      simp only [weight, streamWeight_cons, arrivalWeight, List.length_take, List.length_drop,
        List.length_cons] at *
      omega
  | case4 => exact absurd h (stray_ne_byte _ _ _ _ _ _)
  | case6 f more hf ih =>
      have := ih h
      simp only [streamWeight_cons]
      omega
  | _ => simp at h

/-- A byte consumed makes the receiving side lighter. -/
theorem weight_lt_of_next {via : Protection} {i rest : Inlet} {b : UInt8}
    (h : i.next via = .byte b rest) : rest.weight < i.weight := by
  obtain ⟨held, incoming⟩ := i
  cases held with
  | cons c held =>
      simp only [next, Pull.byte.injEq] at h
      obtain ⟨rfl, rfl⟩ := h
      simp only [weight, List.length_cons]
      omega
  | nil =>
      have := weight_lt_of_refill (show refill via incoming = _ from h)
      simpa [weight] using this

end Inlet

end FtpControl

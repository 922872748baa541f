import FtpControl.Channel.Inlet

/-!
# The flow of a connection

What a reader is given who consumes a connection byte by byte: its bytes in order, and then its
ending, if it has one. How the bytes were cut into pieces does not show in a flow.
-/

namespace FtpControl

/-- How the bytes of a connection end, as a reader is told. -/
inductive StreamEnd where
  | clean
  | failed (fault : IoFault)
  deriving DecidableEq, Repr

namespace Inlet

/-- The ending that a failing read stands for. Nothing is told of a read that waits. -/
def strayEnding : Pull → Option StreamEnd
  | .failed fault _ => some (.failed fault)
  | _ => none

/-- The bytes that a stream gives, and its ending. -/
def streamFlow (via : Protection) : List Arrival → List UInt8 × Option StreamEnd
  | [] => ([], none)
  | .bytes _ [] :: more => streamFlow via more
  | .bytes v (b :: data) :: more =>
      if v = via then (b :: data ++ (streamFlow via more).1, (streamFlow via more).2)
      else ([], strayEnding (stray via (.bytes v (b :: data) :: more) []
        (.bytes v (b :: data) :: more)))
  | .handshake :: _ => ([], some (.failed garbled))
  | .fault f :: more => if isPassing via f then streamFlow via more else ([], some (.failed f))
  | .finish announced :: _ =>
      ([], some (if via = .tls ∧ announced = false then .failed cutOff else .clean))

/-- The bytes that a receiving side gives, and its ending. -/
def flow (via : Protection) (i : Inlet) : List UInt8 × Option StreamEnd :=
  (i.held ++ (streamFlow via i.incoming).1, (streamFlow via i.incoming).2)

end Inlet

/-- The flow that begins with what a pull gave. -/
def Pull.flow (via : Protection) : Pull → List UInt8 × Option StreamEnd
  | .byte b rest => (b :: (rest.flow via).1, (rest.flow via).2)
  | .ended => ([], some .clean)
  | .failed fault _ => ([], some (.failed fault))
  | .waiting => ([], none)

/-- What a pull gives of some bytes and an ending: the first byte, or the ending after the last. -/
def Pull.Begins (via : Protection) (p : Pull) : List UInt8 → Option StreamEnd → Prop
  | b :: bytes, e => ∃ rest, p = .byte b rest ∧ rest.flow via = (bytes, e)
  | [], some .clean => p = .ended
  | [], some (.failed fault) => ∃ rest, p = .failed fault rest
  | [], none => p = .waiting

theorem Pull.begins_flow (via : Protection) (p : Pull) :
    p.Begins via (p.flow via).1 (p.flow via).2 := by
  cases p with
  | byte b rest => exact ⟨rest, rfl, rfl⟩
  | ended => rfl
  | failed fault rest => exact ⟨rest, rfl⟩
  | waiting => rfl

namespace Inlet

/-! ## Streams -/

theorem streamFlow_bytes (via : Protection) (data : List UInt8) (more : List Arrival) :
    streamFlow via (.bytes via data :: more) =
      (data ++ (streamFlow via more).1, (streamFlow via more).2) := by
  cases data with
  | nil => simp [streamFlow]
  | cons b data => simp [streamFlow]

theorem streamFlow_putBack (via : Protection) (data : List UInt8) (more : List Arrival) :
    streamFlow via (putBack via data more) =
      (data ++ (streamFlow via more).1, (streamFlow via more).2) := by
  cases data with
  | nil => simp [putBack]
  | cons b data => exact streamFlow_bytes via (b :: data) more

theorem streamFlow_passing {via : Protection} {f : IoFault} (h : isPassing via f = true)
    (more : List Arrival) : streamFlow via (.fault f :: more) = streamFlow via more := by
  simp [streamFlow, h]

/-- Bytes of the wrong kind give nothing more. -/
theorem flow_stray (via : Protection) (whole : List Arrival) (seen : List UInt8)
    (incoming : List Arrival) :
    (stray via whole seen incoming).flow via =
      ([], strayEnding (stray via whole seen incoming)) := by
  cases h : stray via whole seen incoming with
  | byte b rest => exact absurd h (stray_ne_byte _ _ _ _ _ _)
  | ended =>
      fun_induction stray with
      | case2 _ _ _ _ _ ih => exact ih h
      | case5 _ _ _ _ ih => exact ih h
      | _ => simp at h
  | failed fault rest => rfl
  | waiting => rfl

/-- Taking a block from a stream leaves its flow as it was. -/
theorem flow_refill (via : Protection) (incoming : List Arrival) :
    (refill via incoming).flow via = streamFlow via incoming := by
  fun_induction refill with
  | case1 => rfl
  | case2 v more ih => rw [ih, streamFlow]
  | case3 b data more =>
      rw [streamFlow_bytes, Pull.flow, flow, streamFlow_putBack, ← List.append_assoc,
        List.take_append_drop]
      rfl
  | case4 v b data more hv => rw [flow_stray, streamFlow, if_neg hv]
  | case5 more => rfl
  | case6 f more hf ih => rw [ih, streamFlow_passing hf]
  | case7 f more hf => simp [streamFlow, hf, Pull.flow]
  | case8 announced more h => simp [streamFlow, h, Pull.flow]
  | case9 announced more h => simp [streamFlow, h, Pull.flow]

/-- A stream in the clear: some bytes in pieces, between them interruptions, and an ending. What
comes after the ending does not matter. -/
inductive PlainStream : List Arrival → List UInt8 → StreamEnd → Prop where
  | piece {more bytes e} (data : List UInt8) (h : PlainStream more bytes e) :
      PlainStream (.bytes .clear data :: more) (data ++ bytes) e
  | interruption {more bytes e f} (hf : f.kind = .interrupted) (h : PlainStream more bytes e) :
      PlainStream (.fault f :: more) bytes e
  | finish (announced : Bool) (beyond : List Arrival) :
      PlainStream (.finish announced :: beyond) [] .clean
  | fault {f} (hf : f.kind ≠ .interrupted) (beyond : List Arrival) :
      PlainStream (.fault f :: beyond) [] (.failed f)

theorem PlainStream.streamFlow_eq {incoming : List Arrival} {bytes : List UInt8} {e : StreamEnd}
    (h : PlainStream incoming bytes e) : streamFlow .clear incoming = (bytes, some e) := by
  induction h with
  | piece data h ih => rw [streamFlow_bytes, ih]
  | interruption hf h ih =>
      rw [streamFlow_passing (by simp [isPassing, hf]), ih]
  | finish announced beyond => simp [streamFlow]
  | fault hf beyond => simp [streamFlow, isPassing, hf]

/-! ## Consuming a byte -/

theorem flow_next (via : Protection) (i : Inlet) : (i.next via).flow via = i.flow via := by
  obtain ⟨held, incoming⟩ := i
  cases held with
  | nil => exact flow_refill via incoming
  | cons b held => rfl

/-- What the next pull gives is what comes first in a flow. -/
theorem next_of_flow {via : Protection} {i : Inlet} {bytes : List UInt8} {e : Option StreamEnd}
    (h : i.flow via = (bytes, e)) : (i.next via).Begins via bytes e := by
  have hbegins := (i.next via).begins_flow via
  rwa [flow_next, h] at hbegins

end Inlet

end FtpControl

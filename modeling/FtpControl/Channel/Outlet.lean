import FtpControl.Channel.TlsRecord
import FtpControl.Journal

/-!
# The sending side of a connection

Text is gathered in a buffer and then delivered as a whole, under TLS in records. A peer may take
only so many bytes; what it does not take stays behind, and then nothing is ever delivered again.
A text in the clear that goes past the buffer leaves nothing behind.
-/

namespace FtpControl

/-- The sending side. -/
structure Outlet where
  /-- How many bytes the peer still takes; all of them without a bound. -/
  room : Option Nat := none
  /-- Whether bytes stay behind that the peer does not take. -/
  stuck : Bool := false
  /-- What goes wrong when the stream is shut down. -/
  shutdownFault : Option IoFault := none
  /-- Whether the stream was shut down. -/
  shut : Bool := false
  deriving DecidableEq, Repr

namespace Outlet

/-- The size of the buffer; more than that goes past it. -/
def bufferSize : Nat := 8192

/-- The fault of a peer that takes no more bytes. -/
def refused : IoFault := .plain .brokenPipe

/-- The bytes that announce the end of a TLS stream. -/
def farewellSize : Nat := TlsRecord.overhead + TlsRecord.alertSize

/-- Delivers so many bytes that are no text, if the peer takes them all. -/
def spend (size : Nat) (o : Outlet) : Option Outlet :=
  match o.room with
  | none => some o
  | some n => if size ≤ n then some { o with room := some (n - size) } else none

/-- What is delivered of some bytes, whether that is all of them, and the side afterwards. -/
def send (via : Protection) (bytes : List UInt8) (o : Outlet) :
    List UInt8 × Except IoFault Unit × Outlet :=
  if o.stuck then ([], .error refused, o)
  else
    match o.room, via with
    | none, _ => (bytes, .ok (), o)
    | some n, .clear =>
        if bytes.length ≤ n then (bytes, .ok (), { o with room := some (n - bytes.length) })
        else
          (bytes.take n, .error refused,
            { o with room := some 0, stuck := bytes.length - n < bufferSize })
    | some n, .tls =>
        match TlsRecord.deliver n bytes with
        | (delivered, some left) => (delivered, .ok (), { o with room := some left })
        | (delivered, none) => (delivered, .error refused, { o with room := some 0, stuck := true })

/-- Shuts the stream down. A TLS stream does not mind that nobody is connected to it any more. -/
def close (via : Protection) (o : Outlet) : Except IoFault Unit × Outlet :=
  match o.shutdownFault with
  | none => (.ok (), { o with shut := true })
  | some fault =>
      if via = .tls ∧ fault.kind = .notConnected then (.ok (), { o with shut := true })
      else (.error fault, { o with shut := true })

/-- Delivers what is buffered, announces the end if that is due, and shuts the stream down. -/
def shutdown (via : Protection) (o : Outlet) : Except IoFault Unit × Outlet :=
  if o.stuck then (.error refused, o)
  else
    match o.spend (if via = .tls then farewellSize else 0) with
    | none => (.error refused, o)
    | some o => o.close via

def renewed (o : Outlet) : Outlet := { o with stuck := false }

@[simp] theorem send_unbounded {o : Outlet} (hs : o.stuck = false) (hr : o.room = none)
    (via : Protection) (bytes : List UInt8) : o.send via bytes = (bytes, .ok (), o) := by
  simp [send, hs, hr]

/-- What is delivered stands at the front of what was sent. -/
theorem delivered_append (via : Protection) (bytes : List UInt8) (o : Outlet) :
    ∃ rest, bytes = (o.send via bytes).1 ++ rest := by
  unfold send
  split
  · exact ⟨bytes, rfl⟩
  · split
    · exact ⟨[], by simp⟩
    · next n _ =>
        split
        · exact ⟨[], by simp⟩
        · exact ⟨bytes.drop n, by simp⟩
    · next n _ =>
        have h := TlsRecord.deliver_append n bytes
        split <;> simp_all

end Outlet

end FtpControl

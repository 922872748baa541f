import FtpControl.Channel.Inlet
import FtpControl.Channel.Opening

/-!
# TLS handshakes

A handshake succeeds when the peer's part of it is the next thing on the stream, apart from a few
warnings. It fails when other bytes spoil its opening, at a fault, and at the end of the stream.
-/

namespace FtpControl

/-- Why a handshake failed. -/
inductive HandshakeFault where
  /-- Bytes came that spoil what was read of the opening. -/
  | spoiled (opening : Opening) (bytes : List UInt8)
  | broken (fault : IoFault)
  /-- The stream ended. -/
  | ended
  deriving DecidableEq, Repr

/-- The text of a fault. How spoiled openings are told of is up to those who implement TLS. -/
def HandshakeFault.text (spoiledText : Opening → List UInt8 → String) : HandshakeFault → String
  | spoiled opening bytes => spoiledText opening bytes
  | broken fault => fault.text
  | ended => "tls handshake eof"

/-- What a handshake comes to. -/
inductive Handshake where
  /-- The peer did its part; this is what follows. -/
  | done (incoming : List Arrival)
  | failed (fault : HandshakeFault)
  | waiting
  deriving DecidableEq, Repr

namespace Handshake

/-- The bytes of the server's part: its hello, the certificate with its proof, and two tickets. -/
def serverSize : Nat := 847

/-- Looks for the peer's part on the stream, after what was read of its opening. A hello in the
middle of other bytes is no more than bytes. -/
def read (opening : Opening) : List Arrival → Handshake
  | [] => waiting
  | .bytes via data :: more =>
      match opening.take (Inlet.onStream via data) with
      | none => failed (.spoiled opening (Inlet.onStream via data))
      | some opening => read opening more
  | .handshake :: more =>
      if opening.isClear then done more
      else
        match opening.take Opening.hello with
        | none => failed (.spoiled opening Opening.hello)
        | some opening => read opening more
  | .fault f :: more => if f.kind = .wouldBlock then read opening more else failed (.broken f)
  | .finish _ :: _ => failed .ended

/-- Looks for the peer's part on the stream. -/
def ofStream (incoming : List Arrival) : Handshake := read {} incoming

theorem streamWeight_lt_of_read {opening : Opening} {incoming rest : List Arrival}
    (h : read opening incoming = done rest) :
    Inlet.streamWeight rest < Inlet.streamWeight incoming := by
  fun_induction read with
  | case3 opening v data more next ho ih =>
      have := ih h
      simp only [Inlet.streamWeight_cons]
      omega
  | case4 opening more hc =>
      simp only [done.injEq] at h
      subst h
      simp [Inlet.arrivalWeight]
  | case6 opening more hc next ho ih =>
      have := ih h
      simp only [Inlet.streamWeight_cons]
      omega
  | case7 opening f more hf ih =>
      have := ih h
      simp only [Inlet.streamWeight_cons]
      omega
  | _ => simp at h

theorem streamWeight_lt {incoming rest : List Arrival} (h : ofStream incoming = done rest) :
    Inlet.streamWeight rest < Inlet.streamWeight incoming :=
  streamWeight_lt_of_read h

end Handshake

end FtpControl

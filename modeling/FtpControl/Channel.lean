import FtpControl.Channel.Handshake
import FtpControl.Channel.Outlet
import FtpControl.Channel.RawLine
import FtpControl.Text.Ascii
import FtpControl.Text.Bytes
import FtpControl.Text.Lossy
import FtpControl.Text.Split

/-!
# The control channel

A connection that carries command lines one way and replies the other, first as they are and after
an upgrade under TLS, until it is closed. A closed channel gives no lines and takes no replies.
-/

namespace FtpControl

/-- Whether a channel is in use, and how it is protected. -/
inductive ChannelState where
  | live (via : Protection)
  | closed
  deriving DecidableEq, Repr

/-- A control channel: both sides of a connection, and their use. -/
structure Channel where
  inlet : Inlet := {}
  outlet : Outlet := {}
  state : ChannelState := .live .clear
  deriving DecidableEq, Repr

/-- What asking a channel for a line gives. -/
inductive Received where
  | line (text : String)
  | overlong
  | ended
  | failed (fault : IoFault)
  | waiting
  deriving DecidableEq, Repr

namespace Channel

def isSecure (c : Channel) : Bool := c.state = .live .tls

def isClosed (c : Channel) : Bool := c.state = .closed

/-! ## Receiving -/

/-- A line as it is logged: passwords are left out. -/
def masked (line : String) : String :=
  if Text.upper (.ofList (line.toList.take 5)) = "PASS " then "PASS ****" else line

/-- The text of a line, without the carriage returns and line feeds at its end. -/
def lineText (bytes : List UInt8) : String := Text.trimLineEnd (Text.ofBytesLossy bytes)

def next (c : Channel) : Received × Channel :=
  match c.state with
  | .closed => (.ended, c)
  | .live via =>
      match RawLine.read via c.inlet with
      | .line bytes inlet => (.line (lineText bytes), { c with inlet })
      | .overlong inlet => (.overlong, { c with inlet })
      | .ended => (.ended, c)
      | .failed fault inlet => (.failed fault, { c with inlet })
      | .waiting => (.waiting, c)

def logReceived {σ : Type} (l : Ledger σ) : Received → Ledger σ
  | .line text => l.log .trace (">>> " ++ masked text)
  | _ => l

def receive {σ : Type} (c : Channel) (l : Ledger σ) : Received × Channel × Ledger σ :=
  let (received, c) := c.next
  (received, c, logReceived l received)

/-! ## Sending -/

/-- Sends text. What the peer takes of it is noted; its lines are logged once it took all. -/
def send {σ : Type} (text : String) (c : Channel) (l : Ledger σ) :
    Except Failure Unit × Channel × Ledger σ :=
  match c.state with
  | .closed => (.error .channelClosed, c, l)
  | .live via =>
      let (delivered, answer, outlet) := c.outlet.send via (Text.bytes text)
      let l := l.note (.wrote via delivered)
      match answer with
      | .error fault => (.error fault.toFailure, { c with outlet }, l)
      | .ok () =>
          (.ok (), { c with outlet },
            (Text.lines text).foldl (fun l line => l.log .trace ("<<< " ++ line)) l)

/-- Shuts the stream down and closes the channel, whatever comes of it. -/
def shutdown (c : Channel) : Except Failure Unit × Channel :=
  match c.state with
  | .closed => (.ok (), c)
  | .live via =>
      let (answer, outlet) := c.outlet.shutdown via
      (answer.mapError IoFault.toFailure, { c with outlet, state := .closed })

/-! ## Upgrading -/

/-- Gives up the buffers of an unprotected channel. The bytes held go with them; what is still on
the stream stays there. -/
def detach (c : Channel) : Except Failure Unit × Channel :=
  match c.state with
  | .closed => (.error .channelClosed, c)
  | .live .tls => (.error .alreadySecure, { c with state := .closed })
  | .live .clear =>
      (.ok (), ⟨⟨[], c.inlet.incoming⟩, c.outlet.renewed, .closed⟩)

/-- Goes through the handshake on a detached channel: under TLS afterwards, still closed when the
handshake fails or the peer does not take the server's part of it, and nothing at all before the
peer has spoken. -/
def secure (c : Channel) : Option (Except HandshakeFault Unit × Channel) :=
  match Handshake.ofStream c.inlet.incoming with
  | .waiting => none
  | .failed fault => some (.error fault, c)
  | .done incoming =>
      match c.outlet.spend Handshake.serverSize with
      | none => some (.error (.broken Outlet.refused), c)
      | some outlet => some (.ok (), ⟨⟨[], incoming⟩, outlet, .live .tls⟩)

/-! ## What is left to receive -/

/-- A bound on the number of lines and handshakes that are left. -/
def weight (c : Channel) : Nat := c.inlet.weight

theorem weight_lt_of_line {c d : Channel} {text : String} (h : c.next = (.line text, d)) :
    d.weight < c.weight := by
  unfold next at h
  split at h
  · simp at h
  · split at h
    · next bytes inlet hr =>
        simp only [Prod.mk.injEq, Received.line.injEq] at h
        obtain ⟨-, rfl⟩ := h
        exact RawLine.weight_lt_of_line hr
    all_goals simp at h

theorem weight_lt_of_overlong {c d : Channel} (h : c.next = (.overlong, d)) :
    d.weight < c.weight := by
  unfold next at h
  split at h
  · simp at h
  · split at h
    · simp at h
    · next inlet hr =>
        simp only [Prod.mk.injEq, true_and] at h
        subst h
        exact RawLine.weight_lt_of_overlong hr
    all_goals simp at h

@[simp] theorem weight_send {σ : Type} (text : String) (c : Channel) (l : Ledger σ) :
    (c.send text l).2.1.weight = c.weight := by
  unfold send
  split
  · rfl
  · simp only
    split <;> rfl

@[simp] theorem weight_shutdown (c : Channel) : c.shutdown.2.weight = c.weight := by
  unfold shutdown
  split <;> rfl

theorem weight_detach_le (c : Channel) : c.detach.2.weight ≤ c.weight := by
  unfold detach
  split
  · exact Nat.le_refl _
  · exact Nat.le_refl _
  · simp [weight, Inlet.weight]

theorem weight_lt_of_secure {c d : Channel} (h : c.secure = some (.ok (), d)) :
    d.weight < c.weight := by
  unfold secure at h
  split at h
  · simp at h
  · simp at h
  · next incoming hs =>
      have := Handshake.streamWeight_lt hs
      split at h
      · simp at h
      · simp only [Option.some.injEq, Prod.mk.injEq, true_and] at h
        subst h
        simp only [weight, Inlet.weight, List.length_nil]
        omega

end Channel

end FtpControl

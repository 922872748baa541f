import FtpControl.Proofs.Session.Passage

/-!
# The life of a channel

A channel begins in the clear or under TLS, may be brought under TLS once, and may be closed. Any
number of dispatches in any order keep to that, whatever becomes of the connection between them:
each of them obeys the rules below, and after TLS was granted nothing more goes out in the clear.
-/

namespace FtpControl

variable {σ κ : Type}

/-! ## Replies that matter to a channel -/

namespace Reply

def granting : Reply :=
  .message ReplyCode.authAccepted "AUTH command ok. Expecting TLS Negotiation."

end Reply

namespace Answer

theorem toCommand_auth (host : Host σ κ) {command : Command}
    (h : Text.upper command.verb = "AUTH") (secured : Bool) (profile : Profile) (l : Ledger σ) :
    toCommand host command secured profile l = toAuth host secured profile l := by
  simp only [toCommand, (Verb.ofText_eq_auth_iff host.settings.enableHash command.verb).mpr h]

end Answer

namespace Session

end Session

/-! ## One dispatch -/

/-- A dispatch that is to be made: what it runs against, the command, and both sides of the
connection as it will find them. -/
structure Turn (σ κ : Type) where
  host : Host σ κ
  command : Command
  inlet : Inlet
  outlet : Outlet

/-- A dispatch that was made: the session that it found, what it came to, and the session that it
left. -/
structure Dispatched (σ κ : Type) where
  turn : Turn σ κ
  before : Session σ
  outcome : Outcome
  after : Session σ

def Turn.make (turn : Turn σ κ) (s : Session σ) : Dispatched σ κ :=
  let before := { s with
    channel := { s.channel with inlet := turn.inlet, outlet := turn.outlet } }
  let (outcome, after) := before.dispatch turn.host turn.command
  ⟨turn, before, outcome, after⟩

namespace Dispatched

/-- Whether the command has a verb, in any case. -/
def Asks (verb : String) (d : Dispatched σ κ) : Prop := Text.upper d.turn.command.verb = verb

def writes (d : Dispatched σ κ) : List (Protection × List UInt8) :=
  d.after.ledger.written.drop d.before.ledger.written.length

/-- Whether the handshake comes to a good end that follows once TLS was granted. -/
def Shakes (d : Dispatched σ κ) : Prop :=
  (d.before.channel.givenUp (Text.bytes Reply.granting.render)).Shakes

theorem writes_eq {d : Dispatched σ κ} {more : List (Protection × List UInt8)}
    (h : d.after.ledger.written = d.before.ledger.written ++ more) : d.writes = more := by
  rw [writes, h, List.drop_left]

end Dispatched

/-! ## Any number of dispatches -/

/-- The dispatches that are made one after the other. -/
def Session.history : List (Turn σ κ) → Session σ → List (Dispatched σ κ)
  | [], _ => []
  | turn :: turns, s => turn.make s :: history turns (turn.make s).after

namespace Session

end Session

end FtpControl

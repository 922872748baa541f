import FtpControl.Channel
import FtpControl.Session.Respond

/-!
# Sessions

A session is what a server knows of one client, the channel to it, and the ledger of what was done.
A command is answered by one reply, and only then comes what follows from it: the end of the
channel, or its upgrade to TLS. What a command changed stays changed when its reply cannot be sent.
-/

namespace FtpControl

/-- One client's session. -/
structure Session (σ : Type) where
  profile : Profile := {}
  channel : Channel
  ledger : Ledger σ

/-- What carrying out a command comes to. -/
inductive Outcome where
  | done
  /-- The channel is given up for the TLS handshake that follows. -/
  | securing
  | failed (failure : Failure)
  deriving DecidableEq, Repr

namespace Session

variable {σ κ : Type}

def log (s : Session σ) (level : LogLevel) (text : String) : Session σ :=
  { s with ledger := s.ledger.log level text }

def send (s : Session σ) (reply : Reply) : Except Failure Unit × Session σ :=
  let (answer, channel, ledger) := s.channel.send reply.render s.ledger
  (answer, { s with channel, ledger })

/-- Ends the session on the client's wish. That the stream cannot be shut down is only logged. -/
def hangUp (host : Host σ κ) (s : Session σ) : Session σ :=
  let s := s.log .info (host.label ++ " quit")
  let (answer, channel) := s.channel.shutdown
  let s := { s with channel }
  match answer with
  | .ok () => s
  | .error f => s.log .debug (host.label ++ " shutdown: " ++ f.message)

def detach (s : Session σ) : Outcome × Session σ :=
  match s.channel.detach with
  | (.ok (), channel) => (.securing, { s with channel })
  | (.error f, channel) => (.failed f, { s with channel })

def follow (host : Host σ κ) (sequel : Sequel) (s : Session σ) : Outcome × Session σ :=
  match sequel with
  | .stay => (.done, s)
  | .hangUp => (.done, s.hangUp host)
  | .secure => s.detach

def reply (host : Host σ κ) (command : Command) (s : Session σ) :
    Except Failure Unit × Sequel × Session σ :=
  let answer := Answer.toCommand host command s.channel.isSecure s.profile s.ledger
  let (sent, s) :=
    send { s with profile := answer.profile, ledger := answer.ledger } answer.reply
  (sent, answer.sequel, s)

def perform (host : Host σ κ) (command : Command) (s : Session σ) : Outcome × Session σ :=
  match s.reply host command with
  | (.error f, _, s) => (.failed f, s)
  | (.ok (), sequel, s) => s.follow host sequel

/-- Goes through the handshake, once the client has spoken. -/
def secure (host : Host σ κ) (s : Session σ) : Outcome × Session σ :=
  match s.channel.secure with
  | none => (.securing, s)
  | some (.error fault, channel) =>
      (.failed (.handshakeFailed (fault.text host.spoiledText)), { s with channel })
  | some (.ok (), channel) =>
      (.done, log { s with channel } .info (host.label ++ " control channel upgraded to TLS"))

/-- Carries out a command together with the handshake that may follow it. -/
def dispatch (host : Host σ κ) (command : Command) (s : Session σ) : Outcome × Session σ :=
  match s.perform host command with
  | (.securing, s) => s.secure host
  | result => result

def setUser (user : String) (s : Session σ) : Session σ :=
  { s with profile := { s.profile with user } }

/-! ## What is left to receive -/

@[simp] theorem channel_log (s : Session σ) (level : LogLevel) (text : String) :
    (s.log level text).channel = s.channel := rfl

@[simp] theorem weight_send (s : Session σ) (reply : Reply) :
    (s.send reply).2.channel.weight = s.channel.weight := by
  simp [send]

theorem weight_hangUp (host : Host σ κ) (s : Session σ) :
    (s.hangUp host).channel.weight = s.channel.weight := by
  unfold hangUp
  simp only
  split <;> simp

theorem weight_detach_le (s : Session σ) : s.detach.2.channel.weight ≤ s.channel.weight := by
  unfold detach
  have := s.channel.weight_detach_le
  split <;> simp_all

theorem weight_follow_le (host : Host σ κ) (sequel : Sequel) (s : Session σ) :
    (s.follow host sequel).2.channel.weight ≤ s.channel.weight := by
  cases sequel with
  | stay => exact Nat.le_refl _
  | hangUp => exact Nat.le_of_eq (s.weight_hangUp host)
  | secure => exact s.weight_detach_le

theorem weight_reply (host : Host σ κ) (command : Command) (s : Session σ) :
    (s.reply host command).2.2.channel.weight = s.channel.weight := by
  simp [reply]

/-- Carrying out a command adds nothing to what is left to receive. -/
theorem weight_perform_le (host : Host σ κ) (command : Command) (s : Session σ) :
    (s.perform host command).2.channel.weight ≤ s.channel.weight := by
  unfold perform
  have hr := s.weight_reply host command
  split
  · next hs => simp_all
  · next sequel t hs =>
      have := t.weight_follow_le host sequel
      simp_all

/-- A handshake takes something of what is left to receive. -/
theorem weight_lt_of_secure {host : Host σ κ} {s t : Session σ}
    (h : s.secure host = (.done, t)) : t.channel.weight < s.channel.weight := by
  unfold secure at h
  split at h
  · simp at h
  · simp at h
  · next channel hs =>
      simp only [Prod.mk.injEq, true_and] at h
      subst h
      exact Channel.weight_lt_of_secure hs

end Session

end FtpControl

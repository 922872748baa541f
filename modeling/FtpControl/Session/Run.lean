import FtpControl.Session

/-!
# Runs of a session

A session greets its client and then serves one command after the other, until the client leaves
or a transport fails. Runs go on as long as there is something to do, and stop where only more
input would help.
-/

namespace FtpControl

/-- How far a session has come. -/
inductive Phase where
  | greeting
  | serving
  | securing
  | ended (result : Except Failure Unit)
  deriving Repr

/-- A session at some point of its course. -/
structure Run (σ : Type) where
  phase : Phase := .greeting
  session : Session σ

namespace Run

variable {σ κ : Type}

def finish (host : Host σ κ) (result : Except Failure Unit) (s : Session σ) : Run σ :=
  ⟨.ended result, s.log .info (host.label ++ " ended")⟩

/-- Sends a reply that leaves the session as it is. -/
def say (host : Host σ κ) (reply : Reply) (s : Session σ) : Run σ :=
  match s.send reply with
  | (.ok (), s) => ⟨.serving, s⟩
  | (.error f, s) => finish host (.error f) s

def greet (host : Host σ κ) (s : Session σ) : Run σ :=
  say host (.message ReplyCode.ready host.settings.banner)
    (s.log .info (host.label ++ " started from " ++ host.peerText))

/-- How it goes on after a command or a handshake. -/
def settle (host : Host σ κ) : Outcome × Session σ → Run σ
  | (.failed f, s) => finish host (.error f) s
  | (.securing, s) => ⟨.securing, s⟩
  | (.done, s) => if s.channel.isClosed then finish host (.ok ()) s else ⟨.serving, s⟩

/-- The reply to a line beyond the limit. -/
def refuse (host : Host σ κ) (s : Session σ) : Run σ :=
  say host (.message ReplyCode.notUnderstood "Command line too long")
    (s.log .warn (host.label ++ ": " ++ (Failure.lineTooLong RawLine.limit).message))

/-- Serves the next line, if there is one. -/
def serve (host : Host σ κ) (s : Session σ) : Option (Run σ) :=
  let (received, channel, ledger) := s.channel.receive s.ledger
  let s := { s with channel, ledger }
  match received with
  | .line text => some (settle host (s.perform host (Command.ofLine text)))
  | .overlong => some (refuse host s)
  | .ended => some (finish host (.ok ()) s)
  | .failed fault => some (finish host (.error fault.toFailure) s)
  | .waiting => none

/-- Goes through a handshake, once the client has spoken. -/
def handshake (host : Host σ κ) (s : Session σ) : Option (Run σ) :=
  match s.secure host with
  | (.securing, _) => none
  | settled => some (settle host settled)

/-- One step; none when the session is over or waits for input. -/
def step (host : Host σ κ) (r : Run σ) : Option (Run σ) :=
  match r.phase with
  | .greeting => some (greet host r.session)
  | .serving => serve host r.session
  | .securing => handshake host r.session
  | .ended _ => none

/-! ## Every run comes to a stop -/

/-- A bound on the number of steps that are left. -/
def measure (r : Run σ) : Nat :=
  match r.phase with
  | .greeting => 3 * r.session.channel.weight + 2
  | .securing => 3 * r.session.channel.weight + 2
  | .serving => 3 * r.session.channel.weight + 1
  | .ended _ => 0

@[simp] theorem measure_finish (host : Host σ κ) (result : Except Failure Unit)
    (s : Session σ) : (finish host result s).measure = 0 := rfl

theorem measure_say_le (host : Host σ κ) (reply : Reply) (s : Session σ) :
    (say host reply s).measure ≤ 3 * s.channel.weight + 1 := by
  have hw := s.weight_send reply
  unfold say
  split
  · simp_all [measure]
  · simp

theorem measure_settle_le (host : Host σ κ) (o : Outcome × Session σ) :
    (settle host o).measure ≤ 3 * o.2.channel.weight + 2 := by
  unfold settle
  split
  · simp
  · simp [measure]
  · split
    · simp
    · simp [measure]

theorem measure_lt_of_serve {host : Host σ κ} {s : Session σ} {r : Run σ}
    (h : serve host s = some r) : r.measure < 3 * s.channel.weight + 1 := by
  unfold serve Channel.receive at h
  simp only at h
  split at h
  · next text hr =>
      simp only [Option.some.injEq] at h
      subst h
      have hlt : s.channel.next.2.weight < s.channel.weight :=
        Channel.weight_lt_of_line (Prod.ext hr rfl)
      have hs := measure_settle_le host
        (Session.perform host (Command.ofLine text)
          { s with
            channel := s.channel.next.2
            ledger := Channel.logReceived s.ledger s.channel.next.1 })
      have hp := Session.weight_perform_le host (Command.ofLine text)
        { s with
          channel := s.channel.next.2
          ledger := Channel.logReceived s.ledger s.channel.next.1 }
      grind
  · next hr =>
      simp only [Option.some.injEq] at h
      subst h
      have hlt : s.channel.next.2.weight < s.channel.weight :=
        Channel.weight_lt_of_overlong (Prod.ext hr rfl)
      refine Nat.lt_of_le_of_lt (measure_say_le host _ _) ?_
      simp only [Session.channel_log]
      omega
  · simp only [Option.some.injEq] at h
    simp [← h]
  · simp only [Option.some.injEq] at h
    simp [← h]
  · simp at h

theorem measure_lt_of_handshake {host : Host σ κ} {s : Session σ} {r : Run σ}
    (h : handshake host s = some r) : r.measure < 3 * s.channel.weight + 2 := by
  unfold handshake at h
  split at h
  · simp at h
  · simp only [Option.some.injEq] at h
    subst h
    match hs : s.secure host with
    | (.failed f, t) => simp [settle]
    | (.securing, t) => simp_all
    | (.done, t) =>
        have := Session.weight_lt_of_secure hs
        have := measure_settle_le host (.done, t)
        simp only at this
        omega

theorem measure_lt_of_step {host : Host σ κ} {r next : Run σ} (h : r.step host = some next) :
    next.measure < r.measure := by
  obtain ⟨phase, s⟩ := r
  cases phase with
  | greeting =>
      simp only [step, Option.some.injEq] at h
      subst h
      have := measure_say_le host (.message ReplyCode.ready host.settings.banner)
        (s.log .info (host.label ++ " started from " ++ host.peerText))
      simp only [Session.channel_log] at this
      simp only [greet, measure] at *
      omega
  | serving => exact measure_lt_of_serve h
  | securing => exact measure_lt_of_handshake h
  | ended => simp [step] at h

/-- Goes on as far as the input allows. -/
def advance (host : Host σ κ) (r : Run σ) : Run σ :=
  match h : r.step host with
  | none => r
  | some next =>
      have : next.measure < r.measure := measure_lt_of_step h
      advance host next
termination_by r.measure

/-- Whether the session is over, and what came of it. -/
def result? (r : Run σ) : Option (Except Failure Unit) :=
  match r.phase with
  | .ended result => some result
  | _ => none

end Run

end FtpControl

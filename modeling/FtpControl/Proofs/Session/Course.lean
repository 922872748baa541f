import FtpControl.Proofs.Channel.Sending
import FtpControl.Session.Run
import FtpControl.Storage.Memory

/-!
# What a command comes to

A command is answered, and its reply is sent. What follows the reply follows only when all of it
was sent. The courses below are all that a dispatch can take, each with the session it leads to.
-/

namespace FtpControl

namespace Session

variable {σ κ : Type}

/-- The answer of a session to a command. -/
def answerTo (host : Host σ κ) (command : Command) (s : Session σ) : Answer σ :=
  Answer.toCommand host command s.channel.isSecure s.profile s.ledger

/-- A session that has made an answer its own, before anything is sent. -/
def answered (host : Host σ κ) (command : Command) (s : Session σ) : Session σ :=
  { s with
    profile := (s.answerTo host command).profile
    ledger := (s.answerTo host command).ledger }

theorem sequel_answerTo_eq_hangUp_iff {host : Host σ κ} {command : Command} {s : Session σ} :
    (s.answerTo host command).sequel = .hangUp ↔ Text.upper command.verb = "QUIT" := by
  rw [answerTo, Answer.sequel_toCommand]
  by_cases hquit : Text.upper command.verb = "QUIT"
  · simp [hquit]
  · simp only [hquit, if_false, iff_false]
    split <;> simp

theorem sequel_answerTo_eq_secure_iff {host : Host σ κ} {command : Command} {s : Session σ}
    {via : Protection} (h : s.channel.state = .live via) :
    (s.answerTo host command).sequel = .secure ↔
      Text.upper command.verb = "AUTH" ∧ via = .clear ∧ host.tls = .ok () := by
  rw [answerTo, Answer.sequel_toCommand, ← host.offersTls_iff]
  by_cases hquit : Text.upper command.verb = "QUIT"
  · simp [hquit]
  · cases via <;> simp [hquit, Channel.isSecure, h]

def receiving (inlet : Inlet) (s : Session σ) : Session σ :=
  { s with channel := { s.channel with inlet } }

@[simp] theorem inlet_receiving (inlet : Inlet) (s : Session σ) :
    (s.receiving inlet).channel.inlet = inlet := rfl

def replyBytes (host : Host σ κ) (command : Command) (s : Session σ) : List UInt8 :=
  Text.bytes (s.answerTo host command).reply.render

/-! ## Sending a reply -/

/-- What sending a reply comes to. -/
inductive Sent (reply : Reply) (s : Session σ) : Except Failure Unit → Session σ → Prop where
  | closed (h : s.channel.state = .closed) : Sent reply s (.error .channelClosed) s
  | cut {via fault delivered rest outlet} (h : s.channel.state = .live via)
      (hsend : ¬ s.channel.outlet.Takes via (Text.bytes reply.render))
      (hcut : Text.bytes reply.render = delivered ++ rest) :
      Sent reply s (.error (IoFault.toFailure fault))
        { s with
          channel := { s.channel with outlet }
          ledger := s.ledger.note (.wrote via delivered) }
  | whole {via} (h : s.channel.state = .live via)
      (hsend : s.channel.outlet.Takes via (Text.bytes reply.render)) :
      Sent reply s (.ok ())
        { s with
          channel := { s.channel with
            outlet := (s.channel.outlet.send via (Text.bytes reply.render)).2.2 }
          ledger := Channel.logSent reply.render
            (s.ledger.note (.wrote via (Text.bytes reply.render))) }

theorem sent_send (reply : Reply) (s : Session σ) :
    Sent reply s (s.send reply).1 (s.send reply).2 := by
  cases hstate : s.channel.state with
  | closed =>
      rw [send, Channel.send_closed hstate]
      exact .closed hstate
  | live via =>
      cases hout : (s.channel.outlet.send via (Text.bytes reply.render)).2.1 with
      | ok =>
          rw [send, Channel.send_ok hstate hout]
          exact .whole hstate hout
      | error fault =>
          obtain ⟨rest, hrest⟩ :=
            s.channel.outlet.delivered_append via (Text.bytes reply.render)
          rw [send, Channel.send_error hstate hout]
          exact .cut hstate (by simp [Outlet.Takes, hout]) hrest

/-! ## Carrying out a command -/

theorem reply_eq (host : Host σ κ) (command : Command) (s : Session σ) :
    s.reply host command =
      (((s.answered host command).send (s.answerTo host command).reply).1,
        (s.answerTo host command).sequel,
        ((s.answered host command).send (s.answerTo host command).reply).2) := rfl

/-- A command whose reply cannot be sent fails with what went wrong there. -/
theorem perform_of_error {host : Host σ κ} {command : Command} {s t : Session σ}
    {failure : Failure}
    (h : (s.answered host command).send (s.answerTo host command).reply = (.error failure, t)) :
    s.perform host command = (.failed failure, t) := by
  rw [perform, reply_eq, h]

theorem perform_of_ok {host : Host σ κ} {command : Command} {s t : Session σ}
    (h : (s.answered host command).send (s.answerTo host command).reply = (.ok (), t)) :
    s.perform host command = t.follow host (s.answerTo host command).sequel := by
  rw [perform, reply_eq, h]

/-- Leaving closes the channel, whatever comes of shutting the stream down. -/
theorem state_hangUp (host : Host σ κ) {s : Session σ} {via : Protection}
    (h : s.channel.state = .live via) : (s.hangUp host).channel.state = .closed := by
  have hshut : s.channel.shutdown.2.state = .closed := by simp [Channel.shutdown, h]
  simp only [hangUp, channel_log]
  split <;> exact hshut

theorem written_hangUp (host : Host σ κ) (s : Session σ) :
    (s.hangUp host).ledger.written = s.ledger.written := by
  simp only [hangUp]
  split
  · exact Ledger.written_log ..
  · exact (Ledger.written_log ..).trans (Ledger.written_log ..)

theorem inlet_hangUp (host : Host σ κ) (s : Session σ) :
    (s.hangUp host).channel.inlet = s.channel.inlet := by
  obtain ⟨profile, ⟨inlet, outlet, state⟩, ledger⟩ := s
  cases state with
  | closed => rfl
  | live via =>
      simp only [hangUp, log, Channel.shutdown]
      rcases outlet.shutdown via with ⟨_ | _, outlet⟩ <;> rfl

/-- What is left of a session once its reply was sent and its channel given up. -/
def detached (s : Session σ) : Session σ :=
  { s with channel := ⟨⟨[], s.channel.inlet.incoming⟩, s.channel.outlet.renewed, .closed⟩ }

/-- A session that has sent all of its reply to a command. -/
def replied (host : Host σ κ) (command : Command) (via : Protection) (s : Session σ) :
    Session σ :=
  { s.answered host command with
    channel := { s.channel with
      outlet := (s.channel.outlet.send via (s.replyBytes host command)).2.2 }
    ledger := Channel.logSent (s.answerTo host command).reply.render
      ((s.answered host command).ledger.note
        (.wrote via (Text.bytes (s.answerTo host command).reply.render))) }

theorem detach_clear {s : Session σ} (h : s.channel.state = .live .clear) :
    s.detach = (.securing, s.detached) := by
  rw [detach, Channel.detach, h]
  rfl

/-- The courses of a command: what it comes to, and the session afterwards. -/
inductive Course (host : Host σ κ) (command : Command) (s t : Session σ) : Outcome → Prop where
  | closed (h : s.channel.state = .closed) (ht : t = s.answered host command) :
      Course host command s t (.failed .channelClosed)
  /-- The reply was cut short. -/
  | cut {via fault delivered rest outlet} (h : s.channel.state = .live via)
      (hsend : ¬ s.channel.outlet.Takes via (s.replyBytes host command))
      (hcut : s.replyBytes host command = delivered ++ rest)
      (ht : t = { s.answered host command with
        channel := { s.channel with outlet }
        ledger := (s.answered host command).ledger.note (.wrote via delivered) }) :
      Course host command s t (.failed (IoFault.toFailure fault))
  | stay {via} (h : s.channel.state = .live via)
      (hsend : s.channel.outlet.Takes via (s.replyBytes host command))
      (hnext : (s.answerTo host command).sequel = .stay)
      (ht : t = s.replied host command via) : Course host command s t .done
  | hangUp {via} (h : s.channel.state = .live via)
      (hsend : s.channel.outlet.Takes via (s.replyBytes host command))
      (hnext : (s.answerTo host command).sequel = .hangUp)
      (ht : t = (s.replied host command via).hangUp host) : Course host command s t .done
  | secure (h : s.channel.state = .live .clear)
      (hsend : s.channel.outlet.Takes .clear (s.replyBytes host command))
      (hnext : (s.answerTo host command).sequel = .secure)
      (ht : t = (s.replied host command .clear).detached) :
      Course host command s t .securing

theorem course_perform (host : Host σ κ) (command : Command) (s : Session σ) :
    Course host command s (s.perform host command).2 (s.perform host command).1 := by
  have hsent := sent_send (s.answerTo host command).reply (s.answered host command)
  rcases hout : (s.answered host command).send (s.answerTo host command).reply with
    ⟨failure | _, t⟩
  · rw [perform_of_error hout]
    rw [hout] at hsent
    cases hsent with
    | closed h => exact .closed h rfl
    | cut h hsend hcut => exact .cut h hsend hcut rfl
  · rw [perform_of_ok hout]
    rw [hout] at hsent
    cases hsent with
    | @whole via h hsend =>
        have hlive : s.channel.state = .live via := h
        cases hnext : (s.answerTo host command).sequel with
        | stay => exact .stay hlive hsend hnext rfl
        | hangUp => exact .hangUp hlive hsend hnext rfl
        | secure =>
            obtain ⟨-, rfl, -⟩ := (sequel_answerTo_eq_secure_iff hlive).mp hnext
            show Course host command s (s.replied host command .clear).detach.2
              (s.replied host command .clear).detach.1
            rw [detach_clear (s := s.replied host command .clear) hlive]
            exact .secure hlive hsend hnext rfl

theorem course_of_perform {host : Host σ κ} {command : Command} {s t : Session σ}
    {outcome : Outcome} (h : s.perform host command = (outcome, t)) :
    Course host command s t outcome := by
  have hcourse := s.course_perform host command
  rwa [h] at hcourse

/-! ## Handshakes -/

section

variable {host : Host σ κ} {s : Session σ}

theorem secure_of_waiting (h : Handshake.ofStream s.channel.inlet.incoming = .waiting) :
    s.secure host = (.securing, s) := by
  simp only [secure, Channel.secure, h]

theorem secure_of_failed {fault : HandshakeFault}
    (h : Handshake.ofStream s.channel.inlet.incoming = .failed fault) :
    s.secure host = (.failed (.handshakeFailed (fault.text host.spoiledText)), s) := by
  simp only [secure, Channel.secure, h]

/-- A session that has gone through a handshake. -/
def underTls (host : Host σ κ) (rest : List Arrival) (outlet : Outlet) (s : Session σ) :
    Session σ :=
  log { s with channel := ⟨⟨[], rest⟩, outlet, .live .tls⟩ } .info
    (host.label ++ " control channel upgraded to TLS")

theorem secure_of_done {rest : List Arrival} {outlet : Outlet}
    (h : Handshake.ofStream s.channel.inlet.incoming = .done rest)
    (hroom : s.channel.outlet.spend Handshake.serverSize = some outlet) :
    s.secure host = (.done, s.underTls host rest outlet) := by
  simp only [secure, Channel.secure, h, hroom, underTls]

theorem secure_of_refusal {rest : List Arrival}
    (h : Handshake.ofStream s.channel.inlet.incoming = .done rest)
    (hroom : s.channel.outlet.spend Handshake.serverSize = none) :
    s.secure host = (.failed (.handshakeFailed Outlet.refused.text), s) := by
  simp only [secure, Channel.secure, h, hroom, HandshakeFault.text]

/-- A handshake waits only for what the peer has still to send. -/
theorem waiting_of_secure (h : (s.secure host).1 = .securing) :
    Handshake.ofStream s.channel.inlet.incoming = .waiting := by
  cases hshake : Handshake.ofStream s.channel.inlet.incoming with
  | waiting => rfl
  | failed fault => simp [secure_of_failed hshake] at h
  | done rest =>
      cases hroom : s.channel.outlet.spend Handshake.serverSize with
      | none => simp [secure_of_refusal hshake hroom] at h
      | some outlet => simp [secure_of_done hshake hroom] at h

end

/-- What a handshake comes to, and the session afterwards. -/
inductive Upgrade (host : Host σ κ) (s t : Session σ) : Outcome → Prop where
  | waiting (h : ¬ s.channel.Shakes) (ht : t = s) : Upgrade host s t .securing
  | failed {cause : String} (h : ¬ s.channel.Shakes) (ht : t = s) :
      Upgrade host s t (.failed (.handshakeFailed cause))
  | done {rest outlet} (h : Handshake.ofStream s.channel.inlet.incoming = .done rest)
      (hroom : s.channel.outlet.spend Handshake.serverSize = some outlet)
      (ht : t = log { s with channel := ⟨⟨[], rest⟩, outlet, .live .tls⟩ } .info
        (host.label ++ " control channel upgraded to TLS")) : Upgrade host s t .done

theorem upgrade_of_secure {host : Host σ κ} {s t : Session σ} {outcome : Outcome}
    (h : s.secure host = (outcome, t)) : Upgrade host s t outcome := by
  cases hs : Handshake.ofStream s.channel.inlet.incoming with
  | waiting =>
      rw [secure_of_waiting hs, Prod.mk.injEq] at h
      obtain ⟨rfl, rfl⟩ := h
      exact .waiting (fun hshakes => by simpa [hs] using hshakes.client) rfl
  | failed fault =>
      rw [secure_of_failed hs, Prod.mk.injEq] at h
      obtain ⟨rfl, rfl⟩ := h
      exact .failed (fun hshakes => by simpa [hs] using hshakes.client) rfl
  | done rest =>
      cases hroom : s.channel.outlet.spend Handshake.serverSize with
      | none =>
          rw [secure_of_refusal hs hroom, Prod.mk.injEq] at h
          obtain ⟨rfl, rfl⟩ := h
          exact .failed (fun hshakes => by simpa [hroom] using hshakes.server) rfl
      | some outlet =>
          rw [secure_of_done hs hroom, Prod.mk.injEq] at h
          obtain ⟨rfl, rfl⟩ := h
          exact .done hs hroom rfl

end Session

/-! ## Runs -/

namespace Run

variable {σ κ : Type} {host : Host σ κ}

theorem advance_of_step {r next : Run σ} (h : r.step host = some next) :
    r.advance host = next.advance host := by
  rw [advance]
  split
  · next hnone => simp [h] at hnone
  · next hsome =>
      rw [h, Option.some.injEq] at hsome
      rw [hsome]

theorem advance_of_stop {r : Run σ} (h : r.step host = none) : r.advance host = r := by
  rw [advance]
  split
  · rfl
  · next hsome => simp [h] at hsome

@[simp] theorem advance_ended (result : Except Failure Unit) (s : Session σ) :
    advance host ⟨.ended result, s⟩ = ⟨.ended result, s⟩ := advance_of_stop rfl

theorem serve_eq {via : Protection} {s : Session σ} (h : s.channel.state = .live via) :
    serve host s =
      match RawLine.read via s.channel.inlet with
      | .line bytes rest =>
          some (settle host
            (((s.receiving rest).log .trace
              (">>> " ++ Channel.masked (Channel.lineText bytes))).perform host
                (Command.ofLine (Channel.lineText bytes))))
      | .overlong rest => some (refuse host (s.receiving rest))
      | .ended => some (finish host (.ok ()) s)
      | .failed fault rest => some (finish host (.error fault.toFailure) (s.receiving rest))
      | .waiting => none := by
  obtain ⟨profile, ⟨inlet, outlet, state⟩, ledger⟩ := s
  obtain rfl : state = .live via := h
  simp only [serve, Channel.receive, Channel.next]
  cases RawLine.read via inlet <;> rfl

theorem settle_of_live {via : Protection} {s : Session σ} (h : s.channel.state = .live via) :
    settle host (.done, s) = ⟨.serving, s⟩ := by
  simp [settle, Channel.isClosed, h]

theorem settle_of_closed {s : Session σ} (h : s.channel.state = .closed) :
    settle host (.done, s) = finish host (.ok ()) s := by
  simp [settle, Channel.isClosed, h]

end Run

/-- A host without files, to try out sessions. Its TLS is given text where the header of a record
should be. -/
def Host.bare (tls : Except Failure Unit) : Host MemoryStore MemoryHandle :=
  { settings := {}
    storage := MemoryStore.minimal
    tls
    spoiledText := fun _ _ => "received corrupt message of type InvalidContentType"
    id := "1" }

end FtpControl

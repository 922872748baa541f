import FtpControl.Proofs.Channel.Framing
import FtpControl.Proofs.Session.Course

/-!
# Whole sessions in the clear

What a session comes to whose client sends all its input in the clear and takes every reply, told
on the lines of the input alone: a greeting, one reply for each line, and a result. A run of the
session comes to the same, however the input was cut into pieces.
-/

namespace FtpControl

/-- What a connection without TLS leaves open of a session. -/
structure Dialogue (σ : Type) where
  profile : Profile := {}
  ledger : Ledger σ

/-- What a dialogue comes to. -/
structure Conclusion (σ : Type) where
  result : Except Failure Unit
  /-- Whether the client took leave. -/
  left : Bool
  dialogue : Dialogue σ

/-- The result of a session whose input ends. -/
def StreamEnd.result : StreamEnd → Except Failure Unit
  | clean => .ok ()
  | failed fault => .error fault.toFailure

namespace Dialogue

variable {σ κ : Type}

def log (d : Dialogue σ) (level : LogLevel) (text : String) : Dialogue σ :=
  { d with ledger := d.ledger.log level text }

def say (reply : Reply) (d : Dialogue σ) : Dialogue σ :=
  { d with
    ledger := Channel.logSent reply.render
      (d.ledger.note (.wrote .clear (Text.bytes reply.render))) }

def hear (text : String) (d : Dialogue σ) : Dialogue σ :=
  d.log .trace (">>> " ++ Channel.masked text)

def answer (host : Host σ κ) (command : Command) (d : Dialogue σ) : Dialogue σ :=
  let answer := Answer.toCommand host command false d.profile d.ledger
  say answer.reply ⟨answer.profile, answer.ledger⟩

/-- Takes leave of the client; that the stream cannot be shut down is only logged. -/
def leave (host : Host σ κ) (farewell : Option IoFault) (d : Dialogue σ) : Dialogue σ :=
  let d := d.log .info (host.label ++ " quit")
  match farewell with
  | none => d
  | some fault => d.log .debug (host.label ++ " shutdown: " ++ fault.toFailure.message)

def finish (host : Host σ κ) (d : Dialogue σ) : Dialogue σ :=
  d.log .info (host.label ++ " ended")

def refuse (host : Host σ κ) (d : Dialogue σ) : Dialogue σ :=
  (d.log .warn (host.label ++ ": " ++ (Failure.lineTooLong RawLine.limit).message)).say
    (.message ReplyCode.notUnderstood "Command line too long")

/-- Serves the lines of the input, up to the first with which the client takes leave. -/
def serve (host : Host σ κ) (farewell : Option IoFault) (last : StreamEnd) :
    List Framed → Dialogue σ → Conclusion σ
  | [], d => ⟨last.result, false, d.finish host⟩
  | .overlong :: lines, d => serve host farewell last lines (d.refuse host)
  | .line bytes :: lines, d =>
      let text := Channel.lineText bytes
      let command := Command.ofLine text
      let d := (d.hear text).answer host command
      if Text.upper command.verb = "QUIT" then
        ⟨.ok (), true, (d.leave host farewell).finish host⟩
      else serve host farewell last lines d

def greet (host : Host σ κ) (d : Dialogue σ) : Dialogue σ :=
  (d.log .info (host.label ++ " started from " ++ host.peerText)).say
    (.message ReplyCode.ready host.settings.banner)

/-- A dialogue from its greeting to its end, by the bytes of the input and their ending. -/
def conduct (host : Host σ κ) (farewell : Option IoFault) (bytes : List UInt8)
    (last : StreamEnd) (d : Dialogue σ) : Conclusion σ :=
  serve host farewell last (Framed.ofFlow bytes (some last)) (d.greet host)

/-! ## Sessions in the clear -/

def session (inlet : Inlet) (farewell : Option IoFault) (d : Dialogue σ) : Session σ :=
  { profile := d.profile
    channel := { inlet, outlet := { shutdownFault := farewell } }
    ledger := d.ledger }

variable {inlet : Inlet} {farewell : Option IoFault}

theorem answerTo_session (host : Host σ κ) (command : Command) (d : Dialogue σ) :
    (d.session inlet farewell).answerTo host command =
      Answer.toCommand host command false d.profile d.ledger := rfl

theorem perform_session {host : Host σ κ} {failure : Failure} (htls : host.tls = .error failure)
    (command : Command) (d : Dialogue σ) :
    (d.session inlet farewell).perform host command =
      (.done,
        if Text.upper command.verb = "QUIT" then
          ((d.answer host command).session inlet farewell).hangUp host
        else (d.answer host command).session inlet farewell) := by
  have hsent : ((d.session inlet farewell).answered host command).send
      ((d.session inlet farewell).answerTo host command).reply =
        (.ok (), (d.answer host command).session inlet farewell) := rfl
  rw [Session.perform_of_ok hsent, answerTo_session, Answer.sequel_toCommand]
  by_cases hquit : Text.upper command.verb = "QUIT"
  · simp [hquit, Session.follow]
  · simp [hquit, Session.follow, Host.offersTls, htls]

/-! ## Runs in the clear -/

/-- What a run that is over shares with the conclusion of a dialogue. -/
structure Concludes (r : Run σ) (c : Conclusion σ) : Prop where
  phase : r.phase = .ended c.result
  profile : r.session.profile = c.dialogue.profile
  ledger : r.session.ledger = c.dialogue.ledger
  state : r.session.channel.state = if c.left then .closed else .live .clear

/-- Taking leave ends the session, whatever comes of shutting the stream down. -/
theorem concludes_leave (host : Host σ κ) (d : Dialogue σ) :
    Concludes (Run.finish host (.ok ()) ((d.session inlet farewell).hangUp host))
      ⟨.ok (), true, (d.leave host farewell).finish host⟩ := by
  cases farewell with
  | none => exact ⟨rfl, rfl, rfl, rfl⟩
  | some fault => exact ⟨rfl, rfl, rfl, rfl⟩

theorem settle_session {host : Host σ κ} {failure : Failure} (htls : host.tls = .error failure)
    (command : Command) (d : Dialogue σ) :
    Run.settle host ((d.session inlet farewell).perform host command) =
      if Text.upper command.verb = "QUIT" then
        Run.finish host (.ok ()) (((d.answer host command).session inlet farewell).hangUp host)
      else ⟨.serving, (d.answer host command).session inlet farewell⟩ := by
  rw [perform_session htls]
  by_cases hquit : Text.upper command.verb = "QUIT"
  · simp only [hquit, if_true, Run.settle]
    rw [if_pos (by cases farewell <;> rfl)]
  · simp only [hquit, if_false, Run.settle]
    rfl

/-- The next step of a session in the clear, by what is read. -/
theorem step_session (host : Host σ κ) (inlet : Inlet) (farewell : Option IoFault)
    (d : Dialogue σ) :
    Run.step host ⟨.serving, d.session inlet farewell⟩ =
      match RawLine.read .clear inlet with
      | .line bytes rest =>
          some (Run.settle host
            (((d.hear (Channel.lineText bytes)).session rest farewell).perform host
              (Command.ofLine (Channel.lineText bytes))))
      | .overlong rest => some ⟨.serving, (d.refuse host).session rest farewell⟩
      | .ended => some ⟨.ended (.ok ()), (d.finish host).session inlet farewell⟩
      | .failed fault rest =>
          some ⟨.ended (.error fault.toFailure), (d.finish host).session rest farewell⟩
      | .waiting => none := by
  show Run.serve host (d.session inlet farewell) = _
  have hinlet : (d.session inlet farewell).channel.inlet = inlet := rfl
  rw [Run.serve_eq (show (d.session inlet farewell).channel.state = .live .clear from rfl), hinlet]
  cases RawLine.read .clear inlet <;> rfl

/-- A run serves the lines of its input one after the other. -/
theorem concludes_serving {host : Host σ κ} {failure : Failure} (htls : host.tls = .error failure)
    {lines : List Framed} {last : StreamEnd} (h : RawLine.Reads .clear inlet lines (some last))
    (d : Dialogue σ) :
    Concludes (Run.advance host ⟨.serving, d.session inlet farewell⟩)
      (serve host farewell last lines d) := by
  -- The dialogue goes on from line to line, and its ending is the one that was read last.
  generalize hlast : some last = e at h
  induction h generalizing d with
  | @line inlet rest bytes lines e hread _ ih =>
      have hstep := step_session host inlet farewell d
      rw [hread] at hstep
      rw [Run.advance_of_step hstep, settle_session htls, serve]
      by_cases hquit : Text.upper (Command.ofLine (Channel.lineText bytes)).verb = "QUIT"
      · simp only [hquit, if_true]
        rw [Run.finish, Run.advance_ended]
        exact concludes_leave host _
      · simp only [hquit, if_false]
        exact ih _ hlast
  | @overlong inlet rest lines e hread _ ih =>
      have hstep := step_session host inlet farewell d
      rw [hread] at hstep
      rw [Run.advance_of_step hstep]
      exact ih _ hlast
  | @ended inlet hread =>
      have hstep := step_session host inlet farewell d
      rw [hread] at hstep
      rw [Run.advance_of_step hstep, Run.advance_ended]
      cases hlast
      exact ⟨rfl, rfl, rfl, rfl⟩
  | @failed inlet rest fault hread =>
      have hstep := step_session host inlet farewell d
      rw [hread] at hstep
      rw [Run.advance_of_step hstep, Run.advance_ended]
      cases hlast
      exact ⟨rfl, rfl, rfl, rfl⟩
  | waiting => cases hlast

/-- A session comes to what its dialogue comes to on the flow of its input. -/
theorem concludes_of_flow (host : Host σ κ) {failure : Failure}
    (htls : host.tls = .error failure) (farewell : Option IoFault) {bytes : List UInt8}
    {last : StreamEnd} (hflow : inlet.flow .clear = (bytes, some last)) (d : Dialogue σ) :
    Concludes (Run.advance host ⟨.greeting, d.session inlet farewell⟩)
      (conduct host farewell bytes last d) := by
  have hstep : Run.step host ⟨.greeting, d.session inlet farewell⟩ =
      some ⟨.serving, (d.greet host).session inlet farewell⟩ := rfl
  rw [Run.advance_of_step hstep]
  exact concludes_serving htls (RawLine.reads_of_flow hflow) _

/-- A session in the clear comes to what its dialogue comes to, however its input was cut into
pieces. -/
theorem concludes_conduct (host : Host σ κ) {failure : Failure}
    (htls : host.tls = .error failure) (farewell : Option IoFault) {incoming : List Arrival}
    {bytes : List UInt8} {last : StreamEnd} (h : Inlet.PlainStream incoming bytes last)
    (d : Dialogue σ) :
    Concludes (Run.advance host ⟨.greeting, d.session ⟨[], incoming⟩ farewell⟩)
      (conduct host farewell bytes last d) := by
  have hflow : Inlet.flow .clear ⟨[], incoming⟩ = (bytes, some last) := h.streamFlow_eq
  exact concludes_of_flow host htls farewell hflow d

/-- A client that sends a command in two pieces, with an interruption between them, and leaves. -/
theorem concludes_conduct_pieces :
    let host := Host.bare (.error ⟨.tlsUnavailable, "no certificate configured"⟩)
    let incoming : List Arrival :=
      [.bytes .clear (Text.bytes "NO"), .fault (.plain .interrupted),
        .bytes .clear (Text.bytes "OP\r\nQUIT\r\nNO"), .finish true]
    let start : Dialogue MemoryStore := { ledger := { store := [] } }
    let c := conduct host none (Text.bytes "NOOP\r\nQUIT\r\nNO") .clean start
    Concludes (Run.advance host ⟨.greeting, start.session ⟨[], incoming⟩ none⟩) c ∧
      c.left = true :=
  ⟨concludes_conduct _ rfl none
    (.piece _ (.interruption rfl (.piece _ (.finish true [])))) _, by decide⟩

/-- An interrupted read does not end a session: this one goes on to the end of its input. -/
theorem interruption_passes :
    ¬ ∀ (fault : IoFault) (beyond : List Arrival),
      (Run.advance (Host.bare (.error ⟨.tlsUnavailable, "no certificate configured"⟩))
        ⟨.greeting, session ⟨[], .fault fault :: beyond⟩ none
          { ledger := { store := [] } }⟩).result? = some (.error fault.toFailure) := by
  intro h
  have hflow : Inlet.flow .clear ⟨[], [.fault (.system ⟨4⟩), .finish true]⟩ =
      ([], some .clean) := by decide
  have hend := (concludes_of_flow
    (Host.bare (.error ⟨.tlsUnavailable, "no certificate configured"⟩)) rfl none hflow
    { ledger := { store := [] } }).phase
  have hfault := h (.system ⟨4⟩) [.finish true]
  rw [Run.result?, hend] at hfault
  simp [conduct, Framed.ofFlow, Framed.ofRest, serve, StreamEnd.result] at hfault

end Dialogue

end FtpControl

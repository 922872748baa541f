import FtpControl.Proofs.Session.Dialogue
import FtpControl.Proofs.Session.Replying
import FtpControl.Proofs.Session.Restraint

/-!
# Peers that take only so many bytes

With a peer that takes a number of bytes and then no more, a session goes as it does with a peer
that takes everything, up to the reply that does not fit. That reply is cut at the last byte that
fits, and the session is over: nothing is read or carried out any more.
-/

namespace FtpControl

variable {σ κ : Type} {host : Host σ κ}

/-! ## Bytes that a peer has room for -/

namespace Outlet

variable {o : Outlet} {n : Nat} {bytes : List UInt8}

theorem send_within (hstuck : o.stuck = false) (hroom : o.room = some n)
    (h : bytes.length ≤ n) :
    o.send .clear bytes = (bytes, .ok (), { o with room := some (n - bytes.length) }) := by
  simp [send, hstuck, hroom, h]

/-- What there is no room for stays behind, and nothing is delivered any more. -/
theorem send_beyond (hstuck : o.stuck = false) (hroom : o.room = some n)
    (h : n < bytes.length) :
    o.send .clear bytes = (bytes.take n, .error refused,
      { o with room := some 0, stuck := bytes.length - n < bufferSize }) := by
  simp [send, hstuck, hroom, Nat.not_le.mpr h]

theorem shut_send (via : Protection) (bytes : List UInt8) (o : Outlet) :
    (o.send via bytes).2.2.shut = o.shut := by
  unfold send
  split
  · rfl
  · split
    · rfl
    · split <;> rfl
    · split <;> rfl

end Outlet

/-! ## Output -/

/-- All bytes that were written so far. -/
def Ledger.output (l : Ledger σ) : List UInt8 := l.written.flatMap Prod.snd

theorem Ledger.output_of_written {l m : Ledger σ} (h : m.written = l.written) :
    m.output = l.output := by
  rw [output, output, h]

@[simp] theorem Ledger.output_log (l : Ledger σ) (level : LogLevel) (text : String) :
    (l.log level text).output = l.output := output_of_written (written_log ..)

@[simp] theorem Ledger.output_wrote (l : Ledger σ) (via : Protection) (bytes : List UInt8) :
    (l.note (.wrote via bytes)).output = l.output ++ bytes := by
  simp [output]

@[simp] theorem Ledger.output_logSent (text : String) (l : Ledger σ) :
    (Channel.logSent text l).output = l.output := output_of_written (Channel.written_logSent ..)

namespace Session

/-- Whether a session is in the clear, with a peer that takes everything. -/
structure Open (s : Session σ) : Prop where
  live : s.channel.state = .live .clear
  takesAll : s.channel.outlet.TakesAll
  notShut : s.channel.outlet.shut = false

theorem Open.log {s : Session σ} (h : s.Open) (level : LogLevel) (text : String) :
    (s.log level text).Open :=
  ⟨h.live, h.takesAll, h.notShut⟩

theorem Open.receiving {s : Session σ} (h : s.Open) (inlet : Inlet) : (s.receiving inlet).Open :=
  ⟨h.live, h.takesAll, h.notShut⟩

/-- The session with a peer that takes so many bytes more. -/
def bounded (room : Nat) (s : Session σ) : Session σ :=
  { s with channel := { s.channel with outlet := { s.channel.outlet with room := some room } } }

/-- The session with a peer that takes `k` bytes in all. -/
def rationed (k : Nat) (s : Session σ) : Session σ := s.bounded (k - s.ledger.output.length)

/-! ## A reply with room for it, and without -/

/-- A session that has sent all of a reply. -/
def told (reply : Reply) (s : Session σ) : Session σ :=
  { s with
    ledger := Channel.logSent reply.render
      (s.ledger.note (.wrote .clear (Text.bytes reply.render))) }

/-- A session that has sent what its peer takes of a reply. -/
def cut (k : Nat) (reply : Reply) (s : Session σ) : Session σ :=
  { s with
    channel := { s.channel with
      outlet := ((s.rationed k).channel.outlet.send .clear (Text.bytes reply.render)).2.2 }
    ledger := s.ledger.note
      (.wrote .clear ((Text.bytes reply.render).take (k - s.ledger.output.length))) }

theorem Open.told {s : Session σ} (h : s.Open) (reply : Reply) : (s.told reply).Open :=
  ⟨h.live, h.takesAll, h.notShut⟩

theorem output_told (reply : Reply) (s : Session σ) :
    (s.told reply).ledger.output = s.ledger.output ++ Text.bytes reply.render := by
  simp [told]

theorem send_open {s : Session σ} (h : s.Open) (reply : Reply) :
    s.send reply = (.ok (), s.told reply) := by
  rw [send, Channel.send_ok h.live (h.takesAll _ _), h.takesAll.send_eq]
  rfl

/-- A rationed peer takes a reply as long as it has room for all of it. -/
theorem send_rationed {s : Session σ} {k : Nat} {reply : Reply} (h : s.Open)
    (hfits : (s.told reply).ledger.output.length ≤ k) :
    (s.rationed k).send reply = (.ok (), (s.told reply).rationed k) := by
  obtain ⟨hstuck, -⟩ := Outlet.takesAll_iff.mp h.takesAll
  rw [output_told, List.length_append] at hfits
  have hsend := Outlet.send_within (o := (s.rationed k).channel.outlet) hstuck rfl
    (show (Text.bytes reply.render).length ≤ k - s.ledger.output.length by omega)
  have hok : (s.rationed k).channel.outlet.Takes .clear (Text.bytes reply.render) := by
    rw [Outlet.Takes, hsend]
  have hleft : (s.told reply).rationed k =
      (s.told reply).bounded (k - s.ledger.output.length - (Text.bytes reply.render).length) := by
    rw [rationed, output_told, List.length_append, Nat.sub_sub]
  rw [send, Channel.send_ok (c := (s.rationed k).channel) h.live hok, hsend, hleft]
  rfl

/-- Without room for all of a reply, the peer takes what it has room for. -/
theorem send_rationed_cut {s : Session σ} {k : Nat} {reply : Reply} (h : s.Open)
    (hbefore : s.ledger.output.length ≤ k)
    (hlong : k < (s.told reply).ledger.output.length) :
    (s.rationed k).send reply = (.error Outlet.refused.toFailure, s.cut k reply) := by
  obtain ⟨hstuck, -⟩ := Outlet.takesAll_iff.mp h.takesAll
  rw [output_told, List.length_append] at hlong
  have hsend := Outlet.send_beyond (o := (s.rationed k).channel.outlet) hstuck rfl
    (show k - s.ledger.output.length < (Text.bytes reply.render).length by omega)
  have herror : ((s.rationed k).channel.outlet.send .clear (Text.bytes reply.render)).2.1 =
      .error Outlet.refused := by
    rw [hsend]
  rw [send, Channel.send_error (c := (s.rationed k).channel) h.live herror, hsend, cut, hsend]
  rfl

/-- What was written of a reply that is cut is the front of the output as it would have been. -/
theorem output_cut {s : Session σ} {k : Nat} (hbefore : s.ledger.output.length ≤ k)
    (reply : Reply) : (s.cut k reply).ledger.output = (s.told reply).ledger.output.take k := by
  rw [output_told, List.take_append, List.take_of_length_le hbefore]
  exact Ledger.output_wrote ..

theorem shut_cut (k : Nat) (reply : Reply) (s : Session σ) :
    (s.cut k reply).channel.outlet.shut = s.channel.outlet.shut :=
  Outlet.shut_send .clear (Text.bytes reply.render) (s.rationed k).channel.outlet

/-! ## What a reply leaves as it is -/

/-- Whether a session differs from another by some more output, and else at most in what was logged
and in the state of the connection. -/
structure Tells (host : Host σ κ) (bytes : List UInt8) (s t : Session σ) : Prop where
  profile : t.profile = s.profile
  inlet : t.channel.inlet = s.channel.inlet
  asks : s.ledger.Asks host.storage [] t.ledger
  output : t.ledger.output = s.ledger.output ++ bytes

theorem tells_told (host : Host σ κ) (reply : Reply) (s : Session σ) :
    Tells host (Text.bytes reply.render) s (s.told reply) where
  profile := rfl
  inlet := rfl
  asks := ((Ledger.quiet_wrote ..).trans (Ledger.quiet_logSent ..)).asks _
  output := output_told reply s

theorem tells_cut (host : Host σ κ) (k : Nat) (reply : Reply) (s : Session σ) :
    Tells host ((Text.bytes reply.render).take (k - s.ledger.output.length)) s (s.cut k reply) where
  profile := rfl
  inlet := rfl
  asks := (Ledger.quiet_wrote ..).asks _
  output := Ledger.output_wrote ..

theorem Tells.log {bytes : List UInt8} {s t : Session σ} (h : Tells host bytes s t)
    (level : LogLevel) (text : String) : Tells host bytes s (t.log level text) where
  profile := h.profile
  inlet := h.inlet
  asks := h.asks.quiet (Ledger.quiet_log ..)
  output := (Ledger.output_log ..).trans h.output

theorem output_hangUp (host : Host σ κ) (s : Session σ) :
    (s.hangUp host).ledger.output = s.ledger.output :=
  Ledger.output_of_written (written_hangUp host s)

theorem Tells.hangUp {bytes : List UInt8} {s t : Session σ} (h : Tells host bytes s t) :
    Tells host bytes s (t.hangUp host) where
  profile := (profile_hangUp host t).trans h.profile
  inlet := (inlet_hangUp host t).trans h.inlet
  asks := h.asks.quiet (quiet_hangUp host t)
  output := (output_hangUp host t).trans h.output

/-- Taking leave needs no room. -/
theorem hangUp_bounded (host : Host σ κ) {s : Session σ} (h : s.Open) (room : Nat) :
    (s.bounded room).hangUp host = (s.hangUp host).bounded room := by
  obtain ⟨hstuck, hroom⟩ := Outlet.takesAll_iff.mp h.takesAll
  have hlive := h.live
  obtain ⟨profile, ⟨inlet, ⟨free, stuck, fault, shut⟩, state⟩, ledger⟩ := s
  obtain rfl : free = none := hroom
  obtain rfl : stuck = false := hstuck
  obtain rfl : state = .live .clear := hlive
  cases fault with
  | none => rfl
  | some fault => rfl

theorem hangUp_rationed (host : Host σ κ) {s : Session σ} (h : s.Open) (k : Nat) :
    (s.rationed k).hangUp host = (s.hangUp host).rationed k := by
  rw [rationed, rationed, output_hangUp]
  exact hangUp_bounded host h _

/-! ## A command with room for its reply, and without -/

theorem Open.answered {s : Session σ} (h : s.Open) (host : Host σ κ) (command : Command) :
    (s.answered host command).Open :=
  ⟨h.live, h.takesAll, h.notShut⟩

theorem output_answered (host : Host σ κ) (command : Command) (s : Session σ) :
    (s.answered host command).ledger.output = s.ledger.output :=
  Ledger.output_of_written (written_answered host command s)

theorem answered_rationed (host : Host σ κ) (command : Command) (k : Nat) (s : Session σ) :
    (s.rationed k).answered host command = (s.answered host command).rationed k := by
  rw [rationed, rationed, output_answered]
  rfl

theorem perform_open {s : Session σ} (h : s.Open) (host : Host σ κ) (command : Command) :
    s.perform host command =
      ((s.answered host command).told (s.answerTo host command).reply).follow host
        (s.answerTo host command).sequel :=
  perform_of_ok (send_open (h.answered host command) _)

/-- What a command comes to leaves the session as the reply does. -/
theorem tells_perform {s : Session σ} (h : s.Open) {command : Command}
    (hnext : (s.answerTo host command).sequel ≠ .secure) :
    Tells host (s.replyBytes host command) (s.answered host command)
      (s.perform host command).2 := by
  have htold := tells_told host (s.answerTo host command).reply (s.answered host command)
  rw [perform_open h]
  cases hsequel : (s.answerTo host command).sequel with
  | stay => exact htold
  | hangUp => exact htold.hangUp
  | secure => exact absurd hsequel hnext

theorem perform_rationed {s : Session σ} (h : s.Open) {command : Command} {k : Nat}
    (hnext : (s.answerTo host command).sequel ≠ .secure)
    (hfits : (s.perform host command).2.ledger.output.length ≤ k) :
    (s.rationed k).perform host command =
      ((s.perform host command).1, (s.perform host command).2.rationed k) := by
  have hanswered := h.answered host command
  have htold := output_told (s.answerTo host command).reply (s.answered host command)
  rw [(tells_perform h hnext).output, replyBytes, ← htold] at hfits
  have hsend := send_rationed hanswered hfits
  rw [← answered_rationed] at hsend
  rw [perform_open h, perform_of_ok (s := s.rationed k) hsend]
  show (((s.answered host command).told (s.answerTo host command).reply).rationed k).follow host
    (s.answerTo host command).sequel = _
  cases hsequel : (s.answerTo host command).sequel with
  | stay => rfl
  | hangUp => exact congrArg (Outcome.done, ·) (hangUp_rationed host (hanswered.told _) k)
  | secure => exact absurd hsequel hnext

theorem perform_rationed_cut {s : Session σ} (h : s.Open) {command : Command} {k : Nat}
    (hnext : (s.answerTo host command).sequel ≠ .secure)
    (hbefore : s.ledger.output.length ≤ k)
    (hlong : k < (s.perform host command).2.ledger.output.length) :
    (s.rationed k).perform host command =
      (.failed Outlet.refused.toFailure,
        (s.answered host command).cut k (s.answerTo host command).reply) := by
  have hanswered := h.answered host command
  have htold := output_told (s.answerTo host command).reply (s.answered host command)
  rw [(tells_perform h hnext).output, replyBytes, ← htold] at hlong
  rw [← output_answered host command] at hbefore
  have hsend := send_rationed_cut hanswered hbefore hlong
  rw [← answered_rationed] at hsend
  exact perform_of_error (s := s.rationed k) hsend

end Session

/-! ## Steps with room for a reply, and without -/

namespace Run

def output (r : Run σ) : List UInt8 := r.session.ledger.output

/-- The run with a peer that takes `k` bytes in all. -/
def rationed (k : Nat) (r : Run σ) : Run σ := { r with session := r.session.rationed k }

/-- Whether a run is what becomes of another one whose peer takes only `k` bytes, in a step whose
reply does not fit: it failed, and has carried out and written the same, the end of the reply
apart. Nothing more was read, and the stream is not shut down. -/
structure CutShort (k : Nat) (next short : Run σ) : Prop where
  failed : ∃ failure, short.phase = .ended (.error failure) ∧ failure.kind = .io
  output : short.output = next.output.take k
  profile : short.session.profile = next.session.profile
  calls : short.session.ledger.calls = next.session.ledger.calls
  store : short.session.ledger.store = next.session.ledger.store
  inlet : short.session.channel.inlet = next.session.channel.inlet
  live : short.session.channel.state = .live .clear
  notShut : short.session.channel.outlet.shut = false

theorem output_finish (host : Host σ κ) (result : Except Failure Unit) (s : Session σ) :
    (finish host result s).output = s.ledger.output := Ledger.output_log ..

theorem cutShort_of_tells {k : Nat} {reply : Reply} {s : Session σ} {next : Run σ} (h : s.Open)
    (hbefore : s.ledger.output.length ≤ k)
    (htells : s.Tells host (Text.bytes reply.render) next.session) :
    CutShort k next (finish host (.error Outlet.refused.toFailure) (s.cut k reply)) := by
  have hcut := (s.tells_cut host k reply).log .info (host.label ++ " ended")
  exact {
    failed := ⟨_, rfl, rfl⟩
    output := by
      rw [output_finish, Session.output_cut hbefore, Session.output_told, ← htells.output]
      rfl
    profile := hcut.profile.trans htells.profile.symm
    calls := hcut.asks.calls.trans htells.asks.calls.symm
    store := hcut.asks.store_eq.trans htells.asks.store_eq.symm
    inlet := hcut.inlet.trans htells.inlet.symm
    live := h.live
    notShut := (s.shut_cut k reply).trans h.notShut }

/-- How two runs go on in step: alike while there is room, and until one is cut short. -/
inductive Agrees (k : Nat) (next short : Run σ) : Prop where
  | same (hfits : next.output.length ≤ k) (h : short = next.rationed k)
  | cut (hlong : k < next.output.length) (h : CutShort k next short)

theorem log_rationed (k : Nat) (s : Session σ) (level : LogLevel) (text : String) :
    (s.rationed k).log level text = (s.log level text).rationed k := by
  rw [Session.rationed, Session.rationed, Session.log, Session.log, Ledger.output_log]
  rfl

theorem finish_rationed (host : Host σ κ) (result : Except Failure Unit) (k : Nat)
    (s : Session σ) : finish host result (s.rationed k) = (finish host result s).rationed k := by
  rw [finish, log_rationed]
  rfl

theorem agrees_finish {k : Nat} {s : Session σ} (hbefore : s.ledger.output.length ≤ k)
    (host : Host σ κ) (result : Except Failure Unit) :
    Agrees k (finish host result s) (finish host result (s.rationed k)) := by
  refine .same ?_ (finish_rationed host result k s)
  rw [output_finish]
  exact hbefore

theorem agrees_say {k : Nat} {s : Session σ} (h : s.Open)
    (hbefore : s.ledger.output.length ≤ k) (host : Host σ κ) (reply : Reply) :
    Agrees k (say host reply s) (say host reply (s.rationed k)) := by
  have htold : say host reply s = ⟨.serving, s.told reply⟩ := by
    rw [say, Session.send_open h]
  rw [htold]
  rcases Nat.lt_or_ge k (output ⟨.serving, s.told reply⟩).length with hlong | hfits
  · apply Agrees.cut hlong
    rw [say, Session.send_rationed_cut h hbefore hlong]
    exact cutShort_of_tells h hbefore (s.tells_told host reply)
  · apply Agrees.same hfits
    rw [say, Session.send_rationed h hfits]
    rfl

theorem settle_rationed (host : Host σ κ) (k : Nat) (o : Outcome × Session σ) :
    settle host (o.1, o.2.rationed k) = (settle host o).rationed k :=
  settle_map (f := Session.rationed k) (fun _ => rfl) (log_rationed k) host o

theorem sequel_ne_secure {s : Session σ} (h : s.Open) {command : Command}
    (hclear : (settle host (s.perform host command)).phase ≠ .securing) :
    (s.answerTo host command).sequel ≠ .secure := by
  intro hnext
  rw [Session.perform_open h, hnext, Session.follow,
    Session.detach_clear (s := (s.answered host command).told _) h.live] at hclear
  exact hclear rfl

theorem output_settle (host : Host σ κ) (o : Outcome × Session σ) :
    (settle host o).output = o.2.ledger.output := by
  rcases o with ⟨_ | _ | _, s⟩
  · simp only [settle]
    split
    · exact output_finish ..
    · rfl
  · rfl
  · exact output_finish ..

theorem tells_settle {bytes : List UInt8} {s : Session σ} {o : Outcome × Session σ}
    (h : s.Tells host bytes o.2) : s.Tells host bytes (settle host o).session := by
  rcases o with ⟨_ | _ | _, t⟩
  · simp only [settle]
    split
    · exact h.log ..
    · exact h
  · exact h
  · exact h.log ..

theorem agrees_settle {k : Nat} {s : Session σ} (h : s.Open)
    (hbefore : s.ledger.output.length ≤ k) {command : Command}
    (hclear : (settle host (s.perform host command)).phase ≠ .securing) :
    Agrees k (settle host (s.perform host command))
      (settle host ((s.rationed k).perform host command)) := by
  have hnext := sequel_ne_secure h hclear
  have houtput := output_settle host (s.perform host command)
  rcases Nat.lt_or_ge k (settle host (s.perform host command)).output.length with hlong | hfits
  · apply Agrees.cut hlong
    rw [houtput] at hlong
    rw [Session.perform_rationed_cut h hnext hbefore hlong]
    apply cutShort_of_tells (h.answered host command)
    · rw [Session.output_answered]
      exact hbefore
    · exact tells_settle (Session.tells_perform h hnext)
  · apply Agrees.same hfits
    rw [houtput] at hfits
    rw [Session.perform_rationed h hnext hfits]
    exact settle_rationed host k _

/-! ## Runs -/

/-- Whether a run is over, or goes on in the clear with a peer that takes everything. -/
def Ready (r : Run σ) : Prop :=
  (∃ result, r.phase = .ended result) ∨ (r.phase ≠ .securing ∧ r.session.Open)

/-- What a step of a run has to do with the same step when the peer takes only `k` bytes. -/
structure InStep (host : Host σ κ) (k : Nat) (r next : Run σ) : Prop where
  ready : next.Ready
  grows : r.output <+: next.output
  agrees : r.output.length ≤ k → ∃ short, Step host (r.rationed k) short ∧ Agrees k next short

theorem ready_say {s : Session σ} (h : s.Open) (host : Host σ κ) (reply : Reply) :
    (say host reply s).Ready := by
  rw [say, Session.send_open h]
  exact .inr ⟨by simp, h.told reply⟩

theorem output_say {s : Session σ} (h : s.Open) (host : Host σ κ) (reply : Reply) :
    (say host reply s).output = s.ledger.output ++ Text.bytes reply.render := by
  rw [say, Session.send_open h]
  exact s.output_told reply

theorem ready_settle {s : Session σ} (h : s.Open) {command : Command}
    (hclear : (settle host (s.perform host command)).phase ≠ .securing) :
    (settle host (s.perform host command)).Ready := by
  have hnext := sequel_ne_secure h hclear
  have htold := (h.answered host command).told (s.answerTo host command).reply
  rw [Session.perform_open h]
  cases hsequel : (s.answerTo host command).sequel with
  | stay =>
      rw [Session.follow, settle_of_live htold.live]
      exact .inr ⟨by simp, htold⟩
  | hangUp =>
      rw [Session.follow, settle_of_closed (Session.state_hangUp host htold.live)]
      exact .inl ⟨_, rfl⟩
  | secure => exact absurd hsequel hnext

theorem Ready.of_step {r next : Run σ} (hready : r.Ready) (h : Step host r next) :
    r.phase ≠ .securing ∧ r.session.Open := by
  rcases hready with ⟨result, hphase⟩ | hopen
  · cases h <;> cases hphase
  · exact hopen

theorem receiving_rationed (k : Nat) (inlet : Inlet) (s : Session σ) :
    (s.rationed k).receiving inlet = (s.receiving inlet).rationed k := rfl

theorem inStep_of_say {r : Run σ} {k : Nat} {s : Session σ} {reply : Reply} {short : Run σ}
    (h : s.Open) (houtput : s.ledger.output = r.output)
    (hstep : Step host (r.rationed k) short) (hshort : short = say host reply (s.rationed k)) :
    InStep host k r (say host reply s) := by
  subst hshort
  refine ⟨ready_say h host reply, ⟨Text.bytes reply.render, ?_⟩, ?_⟩
  · rw [output_say h, houtput]
  · intro hbefore
    rw [← houtput] at hbefore
    exact ⟨_, hstep, agrees_say h hbefore host reply⟩

theorem inStep_of_settle {r : Run σ} {k : Nat} {s : Session σ} {command : Command}
    {short : Run σ} (h : s.Open) (houtput : s.ledger.output = r.output)
    (hclear : (settle host (s.perform host command)).phase ≠ .securing)
    (hstep : Step host (r.rationed k) short)
    (hshort : short = settle host ((s.rationed k).perform host command)) :
    InStep host k r (settle host (s.perform host command)) := by
  subst hshort
  have htells := Session.tells_perform h (sequel_ne_secure h hclear)
  refine ⟨ready_settle h hclear, ⟨s.replyBytes host command, ?_⟩, ?_⟩
  · rw [output_settle, htells.output, Session.output_answered, houtput]
  · intro hbefore
    rw [← houtput] at hbefore
    exact ⟨_, hstep, agrees_settle h hbefore hclear⟩

theorem inStep_of_finish {r : Run σ} {k : Nat} {s : Session σ} {result : Except Failure Unit}
    (houtput : s.ledger.output = r.output)
    (hstep : Step host (r.rationed k) (finish host result (s.rationed k))) :
    InStep host k r (finish host result s) := by
  refine ⟨.inl ⟨_, rfl⟩, ⟨[], ?_⟩, ?_⟩
  · rw [output_finish, houtput, List.append_nil]
  · intro hbefore
    rw [← houtput] at hbefore
    exact ⟨_, hstep, agrees_finish hbefore host result⟩

/-- The steps of a run and those with a peer that takes only so many bytes go together. -/
theorem inStep_of_step {r next : Run σ} (h : Step host r next) (hready : r.Ready)
    (hclear : next.phase ≠ .securing) (k : Nat) : InStep host k r next := by
  obtain ⟨hphase, hopen⟩ := hready.of_step h
  cases h with
  | greet s =>
      apply inStep_of_say (hopen.log ..) (Ledger.output_log ..) (.greet (s.rationed k))
      rw [greet, log_rationed]
  | @line s via line rest hstate hread =>
      apply inStep_of_settle ((hopen.receiving rest).log ..) (Ledger.output_log ..) hclear
        (.line hstate hread)
      rw [Session.hearing, receiving_rationed, log_rationed]
  | @overlong s via rest hstate hread =>
      apply inStep_of_say ((hopen.receiving rest).log ..) (Ledger.output_log ..)
        (.overlong hstate hread)
      rw [refuse, receiving_rationed, log_rationed]
  | ended hstate hread => exact inStep_of_finish rfl (.ended hstate hread)
  | failed hstate hread => exact inStep_of_finish rfl (.failed hstate hread)
  | closed hstate => exact absurd (hstate.symm.trans hopen.live) (by simp)
  | shaken => exact absurd rfl hphase

theorem Stops.rationed {r : Run σ} (h : Stops host r) (hphase : r.phase ≠ .securing) (k : Nat) :
    Stops host (r.rationed k) := by
  cases h with
  | ended result s => exact .ended result (s.rationed k)
  | waiting hstate hread => exact .waiting hstate hread
  | unshaken => exact absurd rfl hphase

/-- The output of a run in the clear only grows. -/
theorem grows_advance {r : Run σ} (hready : r.Ready) (hclear : StaysClear host r) :
    r.output <+: (r.advance host).output := by
  fun_induction heard host r with
  | case1 r hstop =>
      rw [advance_of_stop hstop]
  | case2 r next hstep _ ih =>
      have hnext := hclear.next hstep
      have hin := inStep_of_step (step_eq_some_iff.mp hstep) hready hnext.phase_ne 0
      rw [advance_of_step hstep]
      exact hin.grows.trans (ih hin.ready hnext)

/-- What becomes of a run when its peer takes only `k` bytes in all: the same, if that is enough;
and if not, it is cut short in the step whose reply goes beyond. -/
inductive Rationed (host : Host σ κ) (k : Nat) (r : Run σ) : Prop where
  | whole (hfits : (r.advance host).output.length ≤ k)
      (hsame : (r.rationed k).advance host = (r.advance host).rationed k)
      (hheard : (r.rationed k).heard host = r.heard host) : Rationed host k r
  | cut {lines before next} (hreaches : Reaches host r lines before)
      (hstep : before.step host = some next) (hbefore : before.output.length ≤ k)
      (hlong : k < next.output.length) (hgrows : next.output <+: (r.advance host).output)
      (hcut : CutShort k next ((r.rationed k).advance host))
      (hheard : (r.rationed k).heard host = lines ++ before.line?.toList) : Rationed host k r

theorem line?_rationed (k : Nat) (r : Run σ) : (r.rationed k).line? = r.line? := rfl

theorem Rationed.of_step {k : Nat} {r next : Run σ} (hstep : r.step host = some next)
    (hshort : (r.rationed k).step host = some (next.rationed k)) (h : Rationed host k next) :
    Rationed host k r := by
  cases h with
  | whole hfits hsame hheard =>
      apply Rationed.whole
      · rw [advance_of_step hstep]
        exact hfits
      · rw [advance_of_step hstep, advance_of_step hshort]
        exact hsame
      · rw [heard_of_step hstep, heard_of_step hshort, hheard, line?_rationed]
  | cut hreaches hlast hbefore hlong hgrows hcut hheard =>
      apply Rationed.cut (.step hstep hreaches) hlast hbefore hlong
      · rw [advance_of_step hstep]
        exact hgrows
      · rw [advance_of_step hshort]
        exact hcut
      · rw [heard_of_step hshort, hheard, line?_rationed, List.append_assoc]

theorem rationed_of_ready {r : Run σ} (hready : r.Ready) (hclear : StaysClear host r) {k : Nat}
    (hbefore : r.output.length ≤ k) : Rationed host k r := by
  fun_induction heard host r with
  | case1 r hstop =>
      have hshort := step_eq_none_iff.mpr
        ((step_eq_none_iff.mp hstop).rationed hclear.phase_ne k)
      apply Rationed.whole
      · rw [advance_of_stop hstop]
        exact hbefore
      · rw [advance_of_stop hstop, advance_of_stop hshort]
      · rw [heard_of_stop hstop, heard_of_stop hshort]
  | case2 r next hstep _ ih =>
      have hnext := hclear.next hstep
      have hin := inStep_of_step (step_eq_some_iff.mp hstep) hready hnext.phase_ne k
      obtain ⟨short, hshort, hagrees⟩ := hin.agrees hbefore
      rw [← step_eq_some_iff] at hshort
      cases hagrees with
      | same hfits h =>
          subst h
          exact .of_step hstep hshort (ih hin.ready hnext hfits)
      | cut hlong hcut =>
          -- A run that was cut short is over.
          obtain ⟨failure, hended, -⟩ := hcut.failed
          have hstop : short.step host = none := by rw [step, hended]
          apply Rationed.cut (.refl r) hstep hbefore hlong
          · rw [advance_of_step hstep]
            exact grows_advance hin.ready hnext
          · rw [advance_of_step hshort, advance_of_stop hstop]
            exact hcut
          · rw [heard_of_step hshort, heard_of_stop hstop, List.append_nil]
            rfl

/-- A peer that takes only `k` bytes gets the first `k` bytes of a session. If that is all of
them, the session is the same. If not, it fails with an I/O error, having carried out the lines up
to the one whose reply did not fit, as the session does whose peer takes everything, and no more. -/
theorem cut_at_a_reply (host : Host σ κ) (profile : Profile) (store : σ) (inlet : Inlet)
    (farewell : Option IoFault) (k : Nat) :
    let start : Run σ := ⟨.greeting, Dialogue.session inlet farewell ⟨profile, { store }⟩⟩
    let free := start.advance host
    let short := (start.rationed k).advance host
    StaysClear host start →
      short.output = free.output.take k ∧
      (free.output.length ≤ k →
        short = free.rationed k ∧ (start.rationed k).heard host = start.heard host) ∧
      (k < free.output.length → ∃ lines before next, Reaches host start lines before ∧
        before.step host = some next ∧ before.output.length ≤ k ∧ k < next.output.length ∧
          CutShort k next short ∧
            (start.rationed k).heard host = lines ++ before.line?.toList) := by
  intro start free short hclear
  have hopen : start.session.Open :=
    ⟨rfl, Outlet.takesAll_iff.mpr ⟨rfl, rfl⟩, rfl⟩
  cases rationed_of_ready (k := k) (.inr ⟨hclear.phase_ne, hopen⟩) hclear (Nat.zero_le k) with
  | whole hfits hsame hheard =>
      refine ⟨?_, fun _ => ⟨hsame, hheard⟩, fun hlong => absurd hfits (Nat.not_le.mpr hlong)⟩
      have houtput := congrArg output hsame
      rw [List.take_of_length_le hfits]
      exact houtput
  | cut hreaches hstep hbefore hlong hgrows hcut hheard =>
      refine ⟨?_, fun hfits => ?_, fun _ =>
        ⟨_, _, _, hreaches, hstep, hbefore, hlong, hcut, hheard⟩⟩
      · rw [hcut.output]
        obtain ⟨more, hmore⟩ := hgrows
        rw [← hmore, List.take_append_of_le_length (Nat.le_of_lt hlong)]
      · exact absurd (hgrows.length_le.trans hfits) (Nat.not_le.mpr hlong)

/-- A peer that takes the greeting and three more bytes, and a client that knows nothing of it. -/
theorem cut_at_a_reply_noop :
    let host := Host.bare (.error ⟨.tlsUnavailable, "no certificate configured"⟩)
    let inlet : Inlet := ⟨Text.bytes "NOOP\r\nQUIT\r\n", [.finish true]⟩
    let start : Run MemoryStore :=
      ⟨.greeting, Dialogue.session inlet none ⟨{}, { store := [] }⟩⟩
    ((start.rationed 25).advance host).output = Text.bytes "220 sorng-ftpd ready\r\n200" ∧
      ∃ next, CutShort 25 next ((start.rationed 25).advance host) := by
  intro host inlet start
  have htls : host.tls = .error ⟨.tlsUnavailable, "no certificate configured"⟩ := rfl
  have hflow : inlet.flow .clear = (Text.bytes "NOOP\r\nQUIT\r\n", some .clean) := by decide
  have hledger := (Dialogue.concludes_of_flow host htls none hflow ⟨{}, { store := [] }⟩).ledger
  have houtput : (start.advance host).output =
      Text.bytes "220 sorng-ftpd ready\r\n200 OK\r\n221 Goodbye\r\n" := by
    rw [output, hledger]
    decide
  obtain ⟨hfront, -, hcut⟩ := cut_at_a_reply host {} [] inlet none 25 (staysClear_of_tls htls nofun)
  obtain ⟨-, -, next, -, -, -, -, hshort, -⟩ := hcut (by rw [houtput]; decide)
  refine ⟨?_, next, hshort⟩
  rw [hfront, houtput]
  decide

end Run

end FtpControl

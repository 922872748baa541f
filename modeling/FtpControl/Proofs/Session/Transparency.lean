import FtpControl.Proofs.Channel.Framing
import FtpControl.Proofs.Session.Journals
import FtpControl.Proofs.Session.Replying
import FtpControl.Proofs.Session.Steps

/-!
# Sessions under TLS and in the clear

A session that was brought under TLS goes as one in the clear goes that is sent the same lines. At
every line both stand side by side: they know the same of their client, have done the same to the
storage, and their accounts have grown by the same, apart from how the replies travelled.
-/

namespace FtpControl

variable {σ κ : Type}

/-! ## Accounts -/

/-- An event as it is told without regard to how it travelled. Debug records are left out. -/
def Event.told? : Event → Option Event
  | .wrote _ bytes => some (.wrote .clear bytes)
  | .logged .debug _ => none
  | e => some e

namespace Ledger

/-- What was done so far, as it is told. -/
def account (l : Ledger σ) : List Event := l.journal.toList.filterMap Event.told?

theorem account_note (l : Ledger σ) (e : Event) :
    (l.note e).account = l.account ++ e.told?.toList := by
  cases h : e.told? <;> simp [account, note, h]

theorem account_log (l : Ledger σ) (level : LogLevel) (h : level ≠ .debug) (text : String) :
    (l.log level text).account = l.account ++ [.logged level text] := by
  rw [log, account_note]
  cases level <;> first | rfl | exact absurd rfl h

theorem account_debug (l : Ledger σ) (text : String) : (l.log .debug text).account = l.account := by
  rw [log, account_note]
  exact List.append_nil _

theorem account_behind (before : Array Event) (l : Ledger σ) :
    (l.behind before).account = before.toList.filterMap Event.told? ++ l.account := by
  simp [account, behind]

/-- Whether two ledgers stand side by side: they have the same storage, and tell the same after what
either told before. -/
structure Beside (before after : List Event) (l m : Ledger σ) : Prop where
  store : m.store = l.store
  account : ∃ events, l.account = before ++ events ∧ m.account = after ++ events

namespace Beside

variable {before after : List Event} {l m : Ledger σ}

theorem start (l m : Ledger σ) (h : m.store = l.store) : Beside l.account m.account l m :=
  ⟨h, [], by simp⟩

theorem note (h : l.Beside before after m) {e f : Event} (he : e.told? = f.told?) :
    (l.note e).Beside before after (m.note f) := by
  obtain ⟨hstore, events, hl, hm⟩ := h
  refine ⟨hstore, events ++ e.told?.toList, ?_⟩
  rw [account_note, account_note, hl, hm, he, List.append_assoc, List.append_assoc]
  exact ⟨rfl, rfl⟩

theorem log (h : l.Beside before after m) (level : LogLevel) (text : String) :
    (l.log level text).Beside before after (m.log level text) := h.note rfl

theorem logSent (h : l.Beside before after m) (text : String) :
    (Channel.logSent text l).Beside before after (Channel.logSent text m) := by
  unfold Channel.logSent
  induction Text.lines text generalizing l m with
  | nil => exact h
  | cons line lines ih => exact ih (h.log .trace ("<<< " ++ line))

/-- What is done on a ledger of its own is told of both. -/
theorem behind (h : l.Beside before after m) (n : Ledger σ) :
    (n.behind l.journal).Beside before after (n.behind m.journal) := by
  obtain ⟨-, events, hl, hm⟩ := h
  refine ⟨rfl, events ++ n.account, ?_⟩
  rw [account_behind, account_behind, ← List.append_assoc, ← List.append_assoc, ← hl, ← hm]
  exact ⟨rfl, rfl⟩

end Beside

end Ledger

/-! ## Sessions side by side -/

namespace Session

/-- A session that has sent all of a reply. -/
def telling (via : Protection) (reply : Reply) (s : Session σ) : Session σ :=
  { s with
    ledger := Channel.logSent reply.render
      (s.ledger.note (.wrote via (Text.bytes reply.render))) }

theorem send_telling {via : Protection} {s : Session σ} (hlive : s.channel.state = .live via)
    (htakes : s.channel.outlet.TakesAll) (reply : Reply) :
    s.send reply = (.ok (), s.telling via reply) := by
  rw [send, Channel.send_ok hlive (htakes _ _), htakes.send_eq]
  rfl

theorem perform_takesAll {via : Protection} {s : Session σ} (hlive : s.channel.state = .live via)
    (htakes : s.channel.outlet.TakesAll) (host : Host σ κ) (command : Command) :
    s.perform host command =
      ((s.answered host command).telling via (s.answerTo host command).reply).follow host
        (s.answerTo host command).sequel :=
  perform_of_ok (send_telling (s := s.answered host command) hlive htakes _)

/-- Whether two sessions know the same of their client, and their ledgers stand side by side. -/
structure Beside (before after : List Event) (s t : Session σ) : Prop where
  profile : t.profile = s.profile
  ledger : s.ledger.Beside before after t.ledger

namespace Beside

variable {before after : List Event} {s t : Session σ} {host : Host σ κ} {command : Command}

theorem log (h : s.Beside before after t) (level : LogLevel) (text : String) :
    (s.log level text).Beside before after (t.log level text) :=
  ⟨h.profile, h.ledger.log level text⟩

theorem telling (h : s.Beside before after t) (via other : Protection) (reply : Reply) :
    (s.telling via reply).Beside before after (t.telling other reply) := by
  have hwrote : (s.ledger.note (.wrote via (Text.bytes reply.render))).Beside before after
      (t.ledger.note (.wrote other (Text.bytes reply.render))) := h.ledger.note rfl
  exact ⟨h.profile, hwrote.logSent reply.render⟩

theorem hearing (h : s.Beside before after t) (line : List UInt8) (rest other : Inlet) :
    (s.hearing line rest).Beside before after (t.hearing line other) :=
  ⟨h.profile, h.ledger.log .trace _⟩

/-- Taking leave is told in the same words, whatever comes of shutting the streams down. -/
theorem hangUp (h : s.Beside before after t) :
    (s.hangUp host).Beside before after (t.hangUp host) := by
  have hleft : ∀ u : Session σ, (u.hangUp host).profile = u.profile ∧
      (u.hangUp host).ledger.store = u.ledger.store ∧
      (u.hangUp host).ledger.account = (u.ledger.log .info (host.label ++ " quit")).account := by
    intro u
    simp only [Session.hangUp]
    split
    · exact ⟨rfl, rfl, rfl⟩
    · exact ⟨rfl, rfl, Ledger.account_debug ..⟩
  obtain ⟨hprofile, hstore, haccount⟩ := hleft s
  obtain ⟨hprofile', hstore', haccount'⟩ := hleft t
  obtain ⟨-, events, hs, ht⟩ := h.ledger.log .info (host.label ++ " quit")
  refine ⟨?_, ?_, events, haccount.trans hs, haccount'.trans ht⟩
  · rw [hprofile, hprofile', h.profile]
  · rw [hstore, hstore', h.ledger.store]

/-- The answers are the same to all commands but a request for TLS. -/
theorem answered (h : s.Beside before after t) (host : Host σ κ)
    (hverb : Text.upper command.verb ≠ "AUTH") :
    (t.answerTo host command).reply = (s.answerTo host command).reply ∧
      (t.answerTo host command).sequel = (s.answerTo host command).sequel ∧
      (s.answered host command).Beside before after (t.answered host command) := by
  -- The answer on an empty ledger, of which both are made.
  let answer := Answer.toCommand host command false s.profile ⟨s.ledger.store, #[]⟩
  have hs : s.answerTo host command = answer.behind s.ledger.journal := by
    rw [answerTo, Answer.toCommand_of_ne hverb, ← Answer.toCommand_behind, ← Ledger.eq_behind]
  have ht : t.answerTo host command = answer.behind t.ledger.journal := by
    rw [answerTo, Answer.toCommand_of_ne hverb, ← Answer.toCommand_behind, ← h.profile,
      ← h.ledger.store, ← Ledger.eq_behind]
  rw [Session.answered, Session.answered, hs, ht]
  exact ⟨rfl, rfl, rfl, h.ledger.behind answer.ledger⟩

end Beside

end Session

/-! ## Steps abreast -/

/-- A channel that gives these lines and then ends so, to a peer that takes whatever it is sent. -/
structure Channel.Serves (via : Protection) (items : List Framed) (e : Option StreamEnd)
    (c : Channel) : Prop where
  live : c.state = .live via
  reads : RawLine.Reads via c.inlet items e
  takesAll : c.outlet.TakesAll

/-- The command that a line carries. -/
def Command.ofBytes (line : List UInt8) : Command := ofLine (Channel.lineText line)

/-- Whether a line is a request for TLS. -/
def AsksForTls (line : List UInt8) : Prop := Text.upper (Command.ofBytes line).verb = "AUTH"

/-- Whether no line is a request for TLS. -/
def NeverAsks (items : List Framed) : Prop := ∀ line, .line line ∈ items → ¬ AsksForTls line

theorem NeverAsks.tail {item : Framed} {items : List Framed} (h : NeverAsks (item :: items)) :
    NeverAsks items := fun line hline => h line (.tail _ hline)

namespace Run

/-- What two runs have in common that stand side by side. -/
structure Beside (before after : List Event) (r q : Run σ) : Prop where
  result : q.result? = r.result?
  session : r.session.Beside before after q.session

/-- Whether a run in the clear and one under TLS are side by side, and will be. -/
inductive Abreast (before after : List Event) (e : Option StreamEnd) :
    Run σ → Run σ → Prop where
  | serving {s t : Session σ} {items} (h : s.Beside before after t)
      (hclear : s.channel.Serves .clear items e) (htls : t.channel.Serves .tls items e)
      (hno : NeverAsks items) :
      Abreast before after e ⟨.serving, s⟩ ⟨.serving, t⟩
  | ended {s t : Session σ} (result : Except Failure Unit) (h : s.Beside before after t) :
      Abreast before after e ⟨.ended result, s⟩ ⟨.ended result, t⟩

variable {host : Host σ κ} {before after : List Event} {r q : Run σ} {s t : Session σ}
  {items : List Framed} {e : Option StreamEnd}

theorem Abreast.beside (h : Abreast before after e r q) : r.Beside before after q := by
  cases h with
  | serving h => exact ⟨rfl, h⟩
  | ended result h => exact ⟨rfl, h⟩

theorem abreast_finish (h : s.Beside before after t) (host : Host σ κ)
    (result : Except Failure Unit) :
    Abreast before after e (finish host result s) (finish host result t) :=
  .ended result (h.log .info _)

theorem say_eq {via : Protection} (hlive : s.channel.state = .live via)
    (htakes : s.channel.outlet.TakesAll) (host : Host σ κ) (reply : Reply) :
    say host reply s = ⟨.serving, s.telling via reply⟩ := by
  rw [say, Session.send_telling hlive htakes]

theorem abreast_refuse (h : s.Beside before after t) (hclear : s.channel.Serves .clear items e)
    (htls : t.channel.Serves .tls items e) (hno : NeverAsks items) (host : Host σ κ) :
    Abreast before after e (refuse host s) (refuse host t) := by
  rw [refuse, refuse, say_eq (s := s.log .warn _) hclear.live hclear.takesAll,
    say_eq (s := t.log .warn _) htls.live htls.takesAll]
  exact .serving ((h.log .warn _).telling .clear .tls _) hclear htls hno

/-- A command that is no request for TLS leaves runs side by side. -/
theorem abreast_settle (h : s.Beside before after t) (hclear : s.channel.Serves .clear items e)
    (htls : t.channel.Serves .tls items e) (hno : NeverAsks items)
    {command : Command} (hverb : Text.upper command.verb ≠ "AUTH") :
    Abreast before after e (settle host (s.perform host command))
      (settle host (t.perform host command)) := by
  obtain ⟨hreply, hsequel, hanswered⟩ := h.answered host hverb
  have htold := hanswered.telling .clear .tls (s.answerTo host command).reply
  rw [Session.perform_takesAll hclear.live hclear.takesAll,
    Session.perform_takesAll htls.live htls.takesAll, hreply, hsequel]
  generalize hu : (s.answered host command).telling .clear (s.answerTo host command).reply = u
    at htold ⊢
  generalize hv : (t.answered host command).telling .tls (s.answerTo host command).reply = v
    at htold ⊢
  have huclear : u.channel.Serves .clear items e := hu ▸ hclear
  have hvtls : v.channel.Serves .tls items e := hv ▸ htls
  cases hnext : (s.answerTo host command).sequel with
  | stay =>
      rw [Session.follow, Session.follow, settle_of_live huclear.live, settle_of_live hvtls.live]
      exact .serving htold huclear hvtls hno
  | hangUp =>
      rw [Session.follow, Session.follow, settle_of_closed (Session.state_hangUp host huclear.live),
        settle_of_closed (Session.state_hangUp host hvtls.live)]
      exact abreast_finish htold.hangUp host _
  | secure =>
      rw [Session.sequel_answerTo_eq_secure_iff hclear.live] at hnext
      exact absurd hnext.1 hverb

/-- Runs that are abreast both stop, or both take a step, on the same line. -/
theorem Abreast.step (h : Abreast before after e r q) (host : Host σ κ) :
    Stops host r ∧ Stops host q ∨
      ∃ next next', Step host r next ∧ Step host q next' ∧ q.line? = r.line? ∧
        Abreast before after e next next' := by
  cases h with
  | ended result => exact .inl ⟨.ended result _, .ended result _⟩
  | @serving s t items h hclear htls hno =>
      obtain ⟨hlive, hreads, htakes⟩ := hclear
      obtain ⟨hlive', hreads', htakes'⟩ := htls
      cases hreads with
      | @line _ rest bytes items _ hread hrest =>
          cases hreads' with
          | @line _ rest' _ _ _ hread' hrest' =>
              refine .inr ⟨_, _, .line hlive hread, .line hlive' hread', ?_, ?_⟩
              · simp [line?, hlive, hlive', hread, hread']
              · exact abreast_settle (s := s.hearing bytes rest) (t := t.hearing bytes rest')
                  (h.hearing bytes rest rest') ⟨hlive, hrest, htakes⟩ ⟨hlive', hrest', htakes'⟩
                  hno.tail (hno bytes (.head _))
      | @overlong _ rest items _ hread hrest =>
          cases hreads' with
          | @overlong _ rest' _ _ hread' hrest' =>
              refine .inr ⟨_, _, .overlong hlive hread, .overlong hlive' hread', ?_, ?_⟩
              · simp [line?, hlive, hlive', hread, hread']
              · exact abreast_refuse (s := s.receiving rest) (t := t.receiving rest')
                  ⟨h.profile, h.ledger⟩ ⟨hlive, hrest, htakes⟩ ⟨hlive', hrest', htakes'⟩
                  hno.tail host
      | ended hread =>
          cases hreads' with
          | ended hread' =>
              refine .inr ⟨_, _, .ended hlive hread, .ended hlive' hread', ?_,
                abreast_finish h host _⟩
              simp [line?, hlive, hlive', hread, hread']
      | @failed _ rest fault hread =>
          cases hreads' with
          | @failed _ rest' _ hread' =>
              refine .inr ⟨_, _, .failed hlive hread, .failed hlive' hread', ?_,
                abreast_finish (s := s.receiving rest) (t := t.receiving rest')
                  ⟨h.profile, h.ledger⟩ host _⟩
              simp [line?, hlive, hlive', hread, hread']
      | waiting hread =>
          cases hreads' with
          | waiting hread' => exact .inl ⟨.waiting hlive hread, .waiting hlive' hread'⟩

/-- What a run in the clear comes to, one under TLS comes to on the same lines. -/
theorem Abreast.reaches (h : Abreast before after e r q) {lines : List (List UInt8)} {last : Run σ}
    (hreaches : Reaches host r lines last) :
    ∃ last', Reaches host q lines last' ∧ Abreast before after e last last' := by
  induction hreaches generalizing q with
  | refl r => exact ⟨q, .refl q, h⟩
  | @step r next last lines hstep _ ih =>
      obtain ⟨hstop, -⟩ | ⟨next₁, next', hstep₁, hstep', hline, habreast⟩ := h.step host
      · simp [step_eq_none_iff.mpr hstop] at hstep
      · rw [step_eq_some_iff.mpr hstep₁, Option.some.injEq] at hstep
        subst hstep
        obtain ⟨last', hreaches', hlast⟩ := ih habreast
        exact ⟨last', hline ▸ .step (step_eq_some_iff.mpr hstep') hreaches', hlast⟩

theorem Reaches.append {mid last : Run σ} {lines more : List (List UInt8)}
    (h : Reaches host r lines mid) (hmore : Reaches host mid more last) :
    Reaches host r (lines ++ more) last := by
  induction h with
  | refl => exact hmore
  | step hstep _ ih =>
      rw [List.append_assoc]
      exact .step hstep (ih hmore)

theorem Reaches.advance_eq {lines : List (List UInt8)} {last : Run σ}
    (h : Reaches host r lines last) : r.advance host = last.advance host := by
  induction h with
  | refl => rfl
  | step hstep _ ih => rw [advance_of_step hstep, ih]

theorem Reaches.heard_eq {lines : List (List UInt8)} {last : Run σ}
    (h : Reaches host r lines last) : r.heard host = lines ++ last.heard host := by
  induction h with
  | refl => rfl
  | step hstep _ ih => rw [heard_of_step hstep, ih, List.append_assoc]

/-- Runs that are abreast come to the same, and carry out the same lines. -/
theorem Abreast.advance (h : Abreast before after e r q) (host : Host σ κ) :
    Abreast before after e (r.advance host) (q.advance host) ∧ q.heard host = r.heard host := by
  obtain ⟨last', hreaches, hlast⟩ := h.reaches (reaches_advance host r)
  have hnone := step_eq_none_iff.mpr (stops_advance host r)
  obtain ⟨-, hstop⟩ | ⟨next, -, hstep, -⟩ := hlast.step host
  · have hnone' := step_eq_none_iff.mpr hstop
    rw [hreaches.advance_eq, advance_of_stop hnone', hreaches.heard_eq, heard_of_stop hnone',
      List.append_nil]
    exact ⟨hlast, rfl⟩
  · rw [step_eq_some_iff.mpr hstep] at hnone
    cases hnone

/-- A run comes to its result once its input has an ending. -/
theorem Abreast.isSome_result? {last : StreamEnd} (h : Abreast before after (some last) r q)
    (hstop : Stops host r) : r.result?.isSome := by
  cases h with
  | ended => rfl
  | serving h hclear =>
      cases hstop with
      | waiting hstate hread =>
          obtain ⟨hlive, hreads, -⟩ := hclear
          rw [hlive, ChannelState.live.injEq] at hstate
          subst hstate
          cases hreads <;> simp_all

end Run

/-! ## A request for TLS -/

/-- What is told of a line that asks for TLS, up to the handshake that follows. -/
def Host.granting (host : Host σ κ) (line : List UInt8) : List Event :=
  .logged .trace (">>> " ++ Channel.masked (Channel.lineText line)) ::
    .wrote .clear (Text.bytes Reply.granting.render) ::
      ((Text.lines Reply.granting.render).map (fun line => .logged .trace ("<<< " ++ line)) ++
        [.logged .info (host.label ++ " control channel upgraded to TLS")])

theorem Ledger.account_logSent (text : String) (l : Ledger σ) :
    (Channel.logSent text l).account =
      l.account ++ (Text.lines text).map (fun line => .logged .trace ("<<< " ++ line)) := by
  unfold Channel.logSent
  induction Text.lines text generalizing l with
  | nil => simp
  | cons line lines ih =>
      rw [List.foldl_cons, ih, account_log _ .trace nofun, List.map_cons, List.append_assoc]
      rfl

namespace Session

def greeted (host : Host σ κ) (s : Session σ) : Session σ :=
  (s.log .info (host.label ++ " started from " ++ host.peerText)).telling .clear
    (.message ReplyCode.ready host.settings.banner)

/-- A session that was asked for TLS and has gone through the handshake. -/
def upgraded (host : Host σ κ) (line : List UInt8) (rest : Inlet) (after : List Arrival)
    (s : Session σ) : Session σ :=
  log { (s.hearing line rest).telling .clear .granting with
      channel := ⟨⟨[], after⟩, s.channel.outlet, .live .tls⟩ }
    .info (host.label ++ " control channel upgraded to TLS")

theorem account_upgraded (host : Host σ κ) (line : List UInt8) (rest : Inlet)
    (after : List Arrival) (s : Session σ) :
    (s.upgraded host line rest after).ledger.account =
      s.ledger.account ++ host.granting line := by
  have hheard : (s.hearing line rest).ledger.account = s.ledger.account ++
      [.logged .trace (">>> " ++ Channel.masked (Channel.lineText line))] :=
    Ledger.account_log _ .trace nofun _
  have htold : ((s.hearing line rest).telling .clear .granting).ledger.account =
      (s.hearing line rest).ledger.account ++ [.wrote .clear (Text.bytes Reply.granting.render)] ++
        (Text.lines Reply.granting.render).map (fun line => .logged .trace ("<<< " ++ line)) := by
    rw [telling, Ledger.account_logSent, Ledger.account_note]
    rfl
  have hupgraded : (s.upgraded host line rest after).ledger.account =
      ((s.hearing line rest).telling .clear .granting).ledger.account ++
        [.logged .info (host.label ++ " control channel upgraded to TLS")] :=
    Ledger.account_log _ .info nofun _
  rw [hupgraded, htold, hheard, Host.granting]
  simp only [List.append_assoc, List.cons_append, List.nil_append]

/-- A request for TLS is granted, and nothing else comes of it. -/
theorem answerTo_auth {host : Host σ κ} (htls : host.tls = .ok ()) {s : Session σ}
    (hclear : s.channel.state = .live .clear) {command : Command}
    (hauth : Text.upper command.verb = "AUTH") :
    s.answerTo host command = ⟨.granting, s.profile, s.ledger, .secure⟩ := by
  have hsecure : s.channel.isSecure = false := by simp [Channel.isSecure, hclear]
  rw [answerTo, Answer.toCommand_auth host hauth, Answer.toAuth, hsecure, htls]
  rfl

end Session

namespace Run

variable {host : Host σ κ} {s : Session σ} {line : List UInt8} {rest : Inlet}
  {after : List Arrival}

/-- A session that is asked for TLS comes under TLS with what follows the handshake. -/
theorem reaches_upgraded (htls : host.tls = .ok ()) (hclear : s.channel.state = .live .clear)
    (htakes : s.channel.outlet.TakesAll)
    (hread : RawLine.read .clear s.channel.inlet = .line line rest) (hauth : AsksForTls line)
    (hshake : Handshake.ofStream rest.incoming = .done after) :
    Reaches host ⟨.serving, s⟩ [line] ⟨.serving, s.upgraded host line rest after⟩ := by
  have hanswer : (s.hearing line rest).answerTo host (Command.ofBytes line) =
      ⟨.granting, s.profile, (s.hearing line rest).ledger, .secure⟩ :=
    Session.answerTo_auth (s := s.hearing line rest) htls hclear hauth
  have hperform : (s.hearing line rest).perform host (Command.ofBytes line) =
      (.securing, ((s.hearing line rest).telling .clear .granting).detached) := by
    rw [Session.perform_takesAll (s := s.hearing line rest) hclear htakes, Session.answered,
      hanswer]
    exact Session.detach_clear (s := (s.hearing line rest).telling .clear .granting) hclear
  have hsecure : Session.secure host ((s.hearing line rest).telling .clear .granting).detached =
      (.done, s.upgraded host line rest after) := by
    have hroom : s.channel.outlet.renewed.spend Handshake.serverSize = some s.channel.outlet := by
      rw [htakes.renewed_eq, htakes.spend_eq]
    rw [Session.secure_of_done hshake hroom]
    rfl
  have hline : Step host ⟨.serving, s⟩
      ⟨.securing, ((s.hearing line rest).telling .clear .granting).detached⟩ := by
    have hstep : Step host ⟨.serving, s⟩ _ := .line hclear hread
    rwa [show Command.ofLine (Channel.lineText line) = Command.ofBytes line from rfl,
      hperform] at hstep
  have hshaken : Step host
      ⟨.securing, ((s.hearing line rest).telling .clear .granting).detached⟩
      ⟨.serving, s.upgraded host line rest after⟩ := by
    have hdone : (Session.secure host
        ((s.hearing line rest).telling .clear .granting).detached).1 ≠ .securing := by
      simp [hsecure]
    have hstep : Step host ⟨.securing, _⟩ _ := .shaken hdone
    have hlive : (s.upgraded host line rest after).channel.state = .live .tls := rfl
    rwa [hsecure, settle_of_live hlive] at hstep
  have hheard : line? (⟨.serving, s⟩ : Run σ) = some line := by
    simp [line?, hclear, hread]
  have hreaches := Reaches.step (step_eq_some_iff.mpr hline)
    (.step (step_eq_some_iff.mpr hshaken) (.refl _))
  rwa [hheard] at hreaches

end Run

/-- A connection on which a client asks for TLS, shakes hands, and then sends bytes up to an
ending. Nothing is said of the bytes between the request and the handshake. -/
inductive Inlet.Secures (line bytes : List UInt8) (e : Option StreamEnd) (i : Inlet) : Prop where
  | intro {rest after} (hread : RawLine.read .clear i = .line line rest) (hauth : AsksForTls line)
      (hshake : Handshake.ofStream rest.incoming = .done after)
      (hflow : Inlet.flow .tls ⟨[], after⟩ = (bytes, e))

namespace Run

variable {host : Host σ κ} {s : Session σ}

theorem greet_eq (hclear : s.channel.state = .live .clear) (htakes : s.channel.outlet.TakesAll)
    (host : Host σ κ) : greet host s = ⟨.serving, s.greeted host⟩ :=
  say_eq (s := s.log .info _) hclear htakes host _

/-- Once it was granted TLS, a session is abreast of one in the clear. -/
theorem abreast_upgraded (hclear : s.channel.state = .live .clear)
    (htakes : s.channel.outlet.TakesAll) {plain inlet rest : Inlet} {line bytes : List UInt8}
    {after : List Arrival} {e : Option StreamEnd} (hplain : plain.flow .clear = (bytes, e))
    (hflow : Inlet.flow .tls ⟨[], after⟩ = (bytes, e)) (hno : NeverAsks (Framed.ofFlow bytes e)) :
    Abreast s.ledger.account (s.ledger.account ++ host.granting line) e
      ⟨.serving, s.receiving plain⟩
      ⟨.serving, (s.receiving inlet).upgraded host line rest after⟩ := by
  have haccount := Session.account_upgraded host line rest after (s.receiving inlet)
  refine .serving ⟨rfl, ?_⟩ ⟨hclear, RawLine.reads_of_flow hplain, htakes⟩
    ⟨rfl, RawLine.reads_of_flow hflow, htakes⟩ hno
  exact ⟨Channel.store_logSent .., [], (List.append_nil _).symm,
    haccount.trans (List.append_nil _).symm⟩

/-- TLS makes no difference to a session that is sent the same bytes under it, with no request for
TLS among them. For every point that the session in the clear comes to after its greeting, the other
comes to one on the same lines after the request. Both come to the same result, with the same known
of their client, the same calls made, the same replies written and the same state of the storage;
the session under TLS has told of the request besides, and of nothing else. -/
theorem tls_transparent (host : Host σ κ) (htls : host.tls = .ok ()) (s : Session σ)
    (hclear : s.channel.state = .live .clear) (htakes : s.channel.outlet.TakesAll)
    {plain secured : Inlet} {line bytes : List UInt8} {e : Option StreamEnd}
    (hplain : plain.flow .clear = (bytes, e)) (hsecured : secured.Secures line bytes e)
    (hno : NeverAsks (Framed.ofFlow bytes e)) :
    let start := greet host (s.receiving plain)
    let before := start.session.ledger.account
    let after := before ++ host.granting line
    (∀ lines last, Reaches host start lines last →
      ∃ last', Reaches host ⟨.greeting, s.receiving secured⟩ (line :: lines) last' ∧
        last.Beside before after last') ∧
    (advance host ⟨.greeting, s.receiving plain⟩).Beside before after
      (advance host ⟨.greeting, s.receiving secured⟩) ∧
    heard host ⟨.greeting, s.receiving secured⟩ =
      line :: heard host ⟨.greeting, s.receiving plain⟩ ∧
    (e ≠ none → (advance host ⟨.greeting, s.receiving plain⟩).result?.isSome) := by
  intro start before after
  obtain @⟨rest, left, hread, hauth, hshake, hflow⟩ := hsecured
  have hstart : start = ⟨.serving, (s.greeted host).receiving plain⟩ :=
    greet_eq (s := s.receiving plain) hclear htakes host
  have hgreet : Reaches host ⟨.greeting, s.receiving secured⟩ []
      ⟨.serving, (s.greeted host).receiving secured⟩ := by
    have hstep : (⟨.greeting, s.receiving secured⟩ : Run σ).step host =
        some ⟨.serving, (s.greeted host).receiving secured⟩ :=
      congrArg some (greet_eq (s := s.receiving secured) hclear htakes host)
    exact .step hstep (.refl _)
  have hupgraded := hgreet.append
    (reaches_upgraded (s := (s.greeted host).receiving secured) htls hclear htakes hread hauth
      hshake)
  have habreast : Abreast before after e start
      ⟨.serving, ((s.greeted host).receiving secured).upgraded host line rest left⟩ := by
    show Abreast start.session.ledger.account (start.session.ledger.account ++ host.granting line) e
      start _
    rw [hstart]
    exact abreast_upgraded (s := s.greeted host) hclear htakes hplain hflow hno
  obtain ⟨hlast, hheard⟩ := habreast.advance host
  have hfirst : (⟨.greeting, s.receiving plain⟩ : Run σ).step host = some start := rfl
  rw [advance_of_step hfirst, heard_of_step hfirst, hupgraded.advance_eq, hupgraded.heard_eq,
    hheard]
  refine ⟨fun lines last hreaches => ?_, hlast.beside, rfl, fun he => ?_⟩
  · obtain ⟨last', hreaches', hbeside⟩ := habreast.reaches hreaches
    exact ⟨last', hupgraded.append hreaches', hbeside.beside⟩
  · obtain ⟨last, rfl⟩ := Option.ne_none_iff_exists'.mp he
    exact hlast.isSome_result? (stops_advance host start)

/-- A client that sends a command too many before the handshake, and then leaves in two pieces. -/
theorem tls_transparent_quit :
    let host := Host.bare (.ok ())
    let s : Session MemoryStore := { channel := {}, ledger := { store := [] } }
    let plain : Inlet := ⟨[], [.bytes .clear (Text.bytes "TYPE A\r\nQUIT\r\n"), .finish true]⟩
    let covered : List Arrival :=
      [.bytes .tls (Text.bytes "TYPE A\r\nQU"), .bytes .tls (Text.bytes "IT\r\n"), .finish true]
    let secured : Inlet :=
      ⟨[], .bytes .clear (Text.bytes "auth TLS\r\nNOOP\r\n") :: .handshake :: covered⟩
    let line := Text.bytes "auth TLS\r\n"
    let start := greet host (s.receiving plain)
    let before := start.session.ledger.account
    let after := before ++ host.granting line
    (∀ lines last, Reaches host start lines last →
      ∃ last', Reaches host ⟨.greeting, s.receiving secured⟩ (line :: lines) last' ∧
        last.Beside before after last') ∧
    (advance host ⟨.greeting, s.receiving plain⟩).Beside before after
      (advance host ⟨.greeting, s.receiving secured⟩) ∧
    heard host ⟨.greeting, s.receiving secured⟩ =
      line :: heard host ⟨.greeting, s.receiving plain⟩ ∧
    (some StreamEnd.clean ≠ none →
      (advance host ⟨.greeting, s.receiving plain⟩).result?.isSome) := by
  intro host s plain covered secured line start before after
  have hread : RawLine.read .clear secured =
      .line line ⟨Text.bytes "NOOP\r\n", .handshake :: covered⟩ := by decide
  have hauth : AsksForTls line := by
    unfold AsksForTls
    decide
  have hshake : Handshake.ofStream (.handshake :: covered) = .done covered := rfl
  have hsecured : secured.Secures line (Text.bytes "TYPE A\r\nQUIT\r\n") (some .clean) :=
    .intro hread hauth hshake (by decide)
  have hno : NeverAsks (Framed.ofFlow (Text.bytes "TYPE A\r\nQUIT\r\n") (some .clean)) := by
    have hitems : Framed.ofFlow (Text.bytes "TYPE A\r\nQUIT\r\n") (some .clean) =
        [.line (Text.bytes "TYPE A\r\n"), .line (Text.bytes "QUIT\r\n")] := by decide
    intro item hitem
    simp only [hitems, List.mem_cons, Framed.line.injEq, List.not_mem_nil, or_false] at hitem
    rcases hitem with rfl | rfl
    · unfold AsksForTls
      decide
    · unfold AsksForTls
      decide
  exact tls_transparent host rfl s rfl (Outlet.takesAll_iff.mpr ⟨rfl, rfl⟩) (by decide) hsecured hno

end Run

end FtpControl

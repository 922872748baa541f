import FtpControl.Proofs.Channel.Handshakes
import FtpControl.Proofs.Session.Endings
import FtpControl.Proofs.Session.Journals
import FtpControl.Proofs.Session.Secrecy
import FtpControl.Proofs.Session.Verbatim

/-!
# Sessions in another case

Sessions whose lines are the same but for the case of their keywords, and whose handshakes read the
same, do the same, line by line: the same calls, the same replies, the same choices. What is no
keyword reaches the storage and the profile as it was sent.
-/

namespace FtpControl

open Text (SameButWord SameRequest)

variable {σ κ : Type}

/-! ## Deeds -/

/-- An event that the storage or the peer takes part in. -/
def Event.deed? : Event → Option Event
  | .logged _ _ => none
  | e => some e

namespace Ledger

/-- All calls and writes so far, in their order. -/
def deeds (l : Ledger σ) : List Event := l.journal.toList.filterMap Event.deed?

@[simp] theorem deeds_log (l : Ledger σ) (level : LogLevel) (text : String) :
    (l.log level text).deeds = l.deeds := by
  simp [deeds, log, note, Event.deed?]

@[simp] theorem deeds_logSent (text : String) (l : Ledger σ) :
    (Channel.logSent text l).deeds = l.deeds := by
  unfold Channel.logSent
  induction Text.lines text generalizing l with
  | nil => rfl
  | cons line lines ih => rw [List.foldl_cons, ih, deeds_log]

theorem deeds_note (l : Ledger σ) (e : Event) : (l.note e).deeds = l.deeds ++ e.deed?.toList := by
  cases h : e.deed? <;> simp [deeds, note, h]

theorem deeds_behind (before : Array Event) (l : Ledger σ) :
    (l.behind before).deeds = before.toList.filterMap Event.deed? ++ l.deeds := by
  simp [deeds, behind]

end Ledger

/-! ## Sessions -/

namespace Session

/-- Whether two sessions know the same of their client, and have done the same to the storage and
the peer. -/
structure Matches (s t : Session σ) : Prop where
  profile : t.profile = s.profile
  outlet : t.channel.outlet = s.channel.outlet
  state : t.channel.state = s.channel.state
  store : t.ledger.store = s.ledger.store
  deeds : t.ledger.deeds = s.ledger.deeds

namespace Matches

variable {s t : Session σ} {host : Host σ κ}

theorem refl (s : Session σ) : s.Matches s := ⟨rfl, rfl, rfl, rfl, rfl⟩

theorem log (h : s.Matches t) (level level' : LogLevel) (text text' : String) :
    (s.log level text).Matches (t.log level' text') :=
  ⟨h.profile, h.outlet, h.state, h.store, by
    rw [Session.log, Session.log, Ledger.deeds_log, Ledger.deeds_log, h.deeds]⟩

theorem receiving (h : s.Matches t) (i j : Inlet) : (s.receiving i).Matches (t.receiving j) :=
  ⟨h.profile, h.outlet, h.state, h.store, h.deeds⟩

theorem hearing (h : s.Matches t) (p q : List UInt8) (i j : Inlet) :
    (s.hearing p i).Matches (t.hearing q j) := (h.receiving i j).log _ _ _ _

theorem send (h : s.Matches t) (reply : Reply) :
    (t.send reply).1 = (s.send reply).1 ∧ (s.send reply).2.Matches (t.send reply).2 := by
  have hwrote : ∀ via delivered, (t.ledger.note (.wrote via delivered)).deeds =
      (s.ledger.note (.wrote via delivered)).deeds := by
    intro via delivered
    rw [Ledger.deeds_note, Ledger.deeds_note, h.deeds]
  cases hstate : s.channel.state with
  | closed =>
      have hstate' : t.channel.state = .closed := h.state.trans hstate
      rw [Session.send, Session.send, Channel.send_closed hstate, Channel.send_closed hstate']
      exact ⟨rfl, h⟩
  | live via =>
      have hstate' : t.channel.state = .live via := h.state.trans hstate
      cases hout : (s.channel.outlet.send via (Text.bytes reply.render)).2.1 with
      | ok =>
          have hout' := hout
          rw [← h.outlet] at hout'
          rw [Session.send, Session.send, Channel.send_ok hstate hout,
            Channel.send_ok hstate' hout']
          refine ⟨rfl, h.profile, by rw [h.outlet], h.state, ?_, ?_⟩
          · simp only [Channel.store_logSent]
            exact h.store
          · simp only [Ledger.deeds_logSent, hwrote]
      | error fault =>
          have hout' := hout
          rw [← h.outlet] at hout'
          rw [Session.send, Session.send, Channel.send_error hstate hout,
            Channel.send_error hstate' hout', h.outlet]
          exact ⟨rfl, h.profile, rfl, h.state, h.store, hwrote _ _⟩

/-- The same command has the same answer, whatever was logged before. -/
theorem answered (h : s.Matches t) (host : Host σ κ) (command : Command) :
    (t.answerTo host command).reply = (s.answerTo host command).reply ∧
      (t.answerTo host command).sequel = (s.answerTo host command).sequel ∧
      (s.answered host command).Matches (t.answered host command) := by
  -- The answer on an empty ledger, of which both are made.
  let answer := Answer.toCommand host command s.channel.isSecure s.profile ⟨s.ledger.store, #[]⟩
  have hs : s.answerTo host command = answer.behind s.ledger.journal := by
    rw [answerTo, ← Answer.toCommand_behind, ← Ledger.eq_behind]
  have ht : t.answerTo host command = answer.behind t.ledger.journal := by
    rw [answerTo, ← Answer.toCommand_behind, ← h.profile, ← h.store, ← Ledger.eq_behind]
    simp only [Channel.isSecure, h.state]
  rw [Session.answered, Session.answered, hs, ht]
  refine ⟨rfl, rfl, rfl, h.outlet, h.state, rfl, ?_⟩
  have hbefore : t.ledger.journal.toList.filterMap Event.deed? =
      s.ledger.journal.toList.filterMap Event.deed? := h.deeds
  simp only [Answer.behind, Ledger.deeds_behind, hbefore]

theorem hangUp (h : s.Matches t) (host : Host σ κ) :
    (s.hangUp host).Matches (t.hangUp host) := by
  have hlogged := h.log .info .info (host.label ++ " quit") (host.label ++ " quit")
  have hshut : t.channel.shutdown.1 = s.channel.shutdown.1 ∧
      t.channel.shutdown.2.outlet = s.channel.shutdown.2.outlet ∧
      t.channel.shutdown.2.state = s.channel.shutdown.2.state := by
    simp only [Channel.shutdown, h.state]
    cases s.channel.state with
    | closed => exact ⟨rfl, h.outlet, h.state⟩
    | live via => simp only [h.outlet, and_self]
  obtain ⟨hanswer, houtlet, hstate⟩ := hshut
  have hleft : Matches { s.log .info (host.label ++ " quit") with channel := s.channel.shutdown.2 }
      { t.log .info (host.label ++ " quit") with channel := t.channel.shutdown.2 } :=
    ⟨h.profile, houtlet, hstate, hlogged.store, hlogged.deeds⟩
  simp only [Session.hangUp, channel_log, hanswer]
  cases s.channel.shutdown.1 with
  | ok => exact hleft
  | error f => exact hleft.log _ _ _ _

theorem follow (h : s.Matches t) (host : Host σ κ) (sequel : Sequel) :
    (t.follow host sequel).1 = (s.follow host sequel).1 ∧
      (s.follow host sequel).2.Matches (t.follow host sequel).2 := by
  cases sequel with
  | stay => exact ⟨rfl, h⟩
  | hangUp => exact ⟨rfl, h.hangUp host⟩
  | secure =>
      simp only [Session.follow, detach, Channel.detach, h.state]
      rcases s.channel.state with (_ | _) | _
      · exact ⟨rfl, h.profile, by rw [h.outlet], rfl, h.store, h.deeds⟩
      · exact ⟨rfl, h.profile, h.outlet, rfl, h.store, h.deeds⟩
      · exact ⟨rfl, h⟩

/-- Commands that have the same answer come to the same. -/
theorem perform (h : s.Matches t) {c d : Command}
    (hsame : ∀ secured profile (l : Ledger σ),
      Answer.toCommand host d secured profile l = Answer.toCommand host c secured profile l) :
    (t.perform host d).1 = (s.perform host c).1 ∧
      (s.perform host c).2.Matches (t.perform host d).2 := by
  have hcommand : t.perform host d = t.perform host c := perform_congr (hsame _ _ _)
  obtain ⟨hreply, hsequel, hanswered⟩ := h.answered host c
  obtain ⟨hsent, hmatches⟩ := hanswered.send (s.answerTo host c).reply
  rw [hcommand]
  rcases hs : (s.answered host c).send (s.answerTo host c).reply with ⟨answer, u⟩
  rcases ht : (t.answered host c).send (s.answerTo host c).reply with ⟨answer', v⟩
  rw [hs, ht] at hsent hmatches
  obtain rfl : answer' = answer := hsent
  rw [← hreply] at ht
  cases answer' with
  | ok =>
      rw [perform_of_ok hs, perform_of_ok ht, hsequel]
      exact hmatches.follow host _
  | error f =>
      rw [perform_of_error hs, perform_of_error ht]
      exact ⟨rfl, hmatches⟩

end Matches

theorem Matches.underTls {s t : Session σ} (h : s.Matches t) (host : Host σ κ)
    (rest rest' : List Arrival) (outlet : Outlet) :
    (s.underTls host rest outlet).Matches (t.underTls host rest' outlet) := by
  let c : Channel := ⟨⟨[], rest⟩, outlet, .live .tls⟩
  let d : Channel := ⟨⟨[], rest'⟩, outlet, .live .tls⟩
  have hshaken : Matches { s with channel := c } { t with channel := d } :=
    ⟨h.profile, rfl, rfl, h.store, h.deeds⟩
  exact hshaken.log _ _ _ _

/-- What is on the stream is left there for the handshake. -/
theorem inlet_of_securing {host : Host σ κ} {command : Command} {s t : Session σ}
    (h : s.perform host command = (.securing, t)) :
    s.channel.state = .live .clear ∧ t.channel.inlet = ⟨[], s.channel.inlet.incoming⟩ := by
  cases course_of_perform h with
  | secure hlive _ _ ht => exact ⟨hlive, by rw [ht]; rfl⟩

end Session

/-! ## Runs -/

namespace Run

/-- Whether two runs have done the same, and have what asks for the same before them. -/
inductive Matches : Run σ → Run σ → Prop where
  | serving {s t : Session σ} {via} (h : s.Matches t) (hlive : s.channel.state = .live via)
      (hinlets : s.channel.inlet.Alike via t.channel.inlet) : Matches ⟨.serving, s⟩ ⟨.serving, t⟩
  | securing {s t : Session σ} (h : s.Matches t)
      (hstreams : Inlet.StreamMatches .clear s.channel.inlet.incoming t.channel.inlet.incoming) :
      Matches ⟨.securing, s⟩ ⟨.securing, t⟩
  | ended {s t : Session σ} (result : Except Failure Unit) (h : s.Matches t) :
      Matches ⟨.ended result, s⟩ ⟨.ended result, t⟩

variable {host : Host σ κ} {r q : Run σ} {s t : Session σ} {via : Protection}

theorem Matches.session (h : r.Matches q) : r.session.Matches q.session := by
  cases h with
  | serving h => exact h
  | securing h => exact h
  | ended _ h => exact h

theorem matches_finish (h : s.Matches t) (host : Host σ κ) (result : Except Failure Unit) :
    (finish host result s).Matches (finish host result t) := .ended result (h.log _ _ _ _)

/-- Sending the same leaves runs that match. -/
theorem matches_say (h : s.Matches t) (hlive : s.channel.state = .live via)
    (hinlets : s.channel.inlet.Alike via t.channel.inlet) (host : Host σ κ) (reply : Reply) :
    (say host reply s).Matches (say host reply t) := by
  obtain ⟨hanswer, hsent⟩ := h.send reply
  have hon := goesOn_say hlive host reply
  have hon' := goesOn_say (h.state.trans hlive) host reply
  rw [say] at hon ⊢
  rw [say] at hon' ⊢
  rcases hs : s.send reply with ⟨answer, u⟩
  rcases ht : t.send reply with ⟨answer', v⟩
  rw [hs, ht] at hanswer hsent
  obtain rfl : answer' = answer := hanswer
  rw [hs] at hon
  rw [ht] at hon'
  cases answer' with
  | error f => exact matches_finish hsent host _
  | ok =>
      obtain ⟨result, hended⟩ | ⟨-, hlive, hinlet⟩ := hon
      · cases hended
      obtain ⟨result, hended⟩ | ⟨-, -, hinlet'⟩ := hon'
      · cases hended
      refine .serving hsent hlive ?_
      rwa [show u.channel.inlet = _ from hinlet, show v.channel.inlet = _ from hinlet']

/-- Commands that have the same answer leave runs that match. -/
theorem matches_settle (h : s.Matches t) (hlive : s.channel.state = .live via)
    (hinlets : s.channel.inlet.Alike via t.channel.inlet) {c d : Command}
    (hsame : ∀ secured profile (l : Ledger σ),
      Answer.toCommand host d secured profile l = Answer.toCommand host c secured profile l) :
    (settle host (s.perform host c)).Matches (settle host (t.perform host d)) := by
  obtain ⟨houtcome, hmatches⟩ := h.perform hsame
  have hon := goesOn_settle_or hlive host c
  have hon' := goesOn_settle_or (h.state.trans hlive) host d
  rcases hs : s.perform host c with ⟨outcome, u⟩
  rcases ht : t.perform host d with ⟨outcome', v⟩
  rw [hs, ht] at houtcome hmatches
  rw [hs] at hon
  rw [ht] at hon'
  obtain rfl : outcome' = outcome := houtcome
  cases outcome' with
  | failed f => exact matches_finish hmatches host _
  | securing =>
      obtain ⟨hclear, hinlet⟩ := Session.inlet_of_securing hs
      obtain ⟨-, hinlet'⟩ := Session.inlet_of_securing ht
      obtain rfl : via = .clear := by simpa [hlive] using hclear
      refine .securing hmatches ?_
      rw [hinlet, hinlet']
      exact hinlets.matching.incoming
  | done =>
      cases hstate : u.channel.state with
      | closed =>
          rw [settle_of_closed hstate, settle_of_closed (hmatches.state.trans hstate)]
          exact matches_finish hmatches host _
      | live w =>
          rw [settle_of_live hstate] at hon ⊢
          rw [settle_of_live (hmatches.state.trans hstate)] at hon' ⊢
          have hserves : ∀ {x : Session σ} {y : Inlet}, GoesOn via y ⟨.serving, x⟩ ∨
              via = .clear ∧ (⟨.serving, x⟩ : Run σ).phase = .securing →
              x.channel.state = .live via ∧ x.channel.inlet = y := by
            rintro x y ((⟨result, hended⟩ | ⟨-, hlive, hinlet⟩) | ⟨-, hsecuring⟩)
            · cases hended
            · exact ⟨hlive, hinlet⟩
            · cases hsecuring
          obtain ⟨hlive, hinlet⟩ := hserves hon
          obtain ⟨-, hinlet'⟩ := hserves hon'
          refine .serving hmatches hlive ?_
          rwa [hinlet, hinlet']

/-! ## Steps -/

/-- How two runs go on beside each other. -/
inductive Pace (host : Host σ κ) (r q : Run σ) : Prop where
  | stop (h : r.step host = none) (h' : q.step host = none)
  | step {next next'} (h : r.step host = some next) (h' : q.step host = some next')
      (hnext : next.Matches next')

theorem pace_serving (h : s.Matches t) (hlive : s.channel.state = .live via)
    (hinlets : s.channel.inlet.Alike via t.channel.inlet) :
    Pace host ⟨.serving, s⟩ ⟨.serving, t⟩ := by
  have hlive' := h.state.trans hlive
  have hread := RawLine.read_alike hinlets
  generalize hi : RawLine.read via s.channel.inlet = raw,
    hj : RawLine.read via t.channel.inlet = other at hread
  cases hread with
  | @line p q i j hline hrest =>
      refine .step (step_eq_some_iff.mpr (.line hlive hi)) (step_eq_some_iff.mpr (.line hlive' hj))
        ?_
      exact matches_settle (h.hearing p q i j) hlive hrest (Answer.toCommand_eq host hline)
  | @overlong i j hrest =>
      refine .step (step_eq_some_iff.mpr (.overlong hlive hi))
        (step_eq_some_iff.mpr (.overlong hlive' hj)) ?_
      exact matches_say ((h.receiving i j).log _ _ _ _) hlive hrest host _
  | ended =>
      exact .step (step_eq_some_iff.mpr (.ended hlive hi)) (step_eq_some_iff.mpr (.ended hlive' hj))
        (matches_finish h host _)
  | failed fault i j =>
      exact .step (step_eq_some_iff.mpr (.failed hlive hi))
        (step_eq_some_iff.mpr (.failed hlive' hj)) (matches_finish (h.receiving i j) host _)
  | waiting =>
      exact .stop (step_eq_none_iff.mpr (.waiting hlive hi))
        (step_eq_none_iff.mpr (.waiting hlive' hj))

theorem step_of_failed {failure : Failure} (h : s.secure host = (.failed failure, s)) :
    step host ⟨.securing, s⟩ = some (finish host (.error failure) s) := by
  simp only [step, handshake, h, settle]

theorem step_of_waiting (h : Handshake.ofStream s.channel.inlet.incoming = .waiting) :
    step host ⟨.securing, s⟩ = none := by
  simp only [step, handshake, Session.secure_of_waiting h]

theorem step_of_done {rest : List Arrival} {outlet : Outlet}
    (h : Handshake.ofStream s.channel.inlet.incoming = .done rest)
    (hroom : s.channel.outlet.spend Handshake.serverSize = some outlet) :
    step host ⟨.securing, s⟩ = some ⟨.serving, s.underTls host rest outlet⟩ := by
  have hlive : (s.underTls host rest outlet).channel.state = .live .tls := rfl
  simp only [step, handshake, Session.secure_of_done h hroom, settle_of_live hlive]

theorem pace_securing (h : s.Matches t)
    (hstreams : Inlet.StreamMatches .clear s.channel.inlet.incoming t.channel.inlet.incoming)
    (hsame : Handshake.taken {} s.channel.inlet.incoming =
      Handshake.taken {} t.channel.inlet.incoming) :
    Pace host ⟨.securing, s⟩ ⟨.securing, t⟩ := by
  have hshaken : (Handshake.ofStream s.channel.inlet.incoming).Alike
      (Handshake.ofStream t.channel.inlet.incoming) := Handshake.read_alike hstreams hsame
  generalize hi : Handshake.ofStream s.channel.inlet.incoming = shaken,
    hj : Handshake.ofStream t.channel.inlet.incoming = other at hshaken
  cases hshaken with
  | @done rest rest' hrest =>
      cases hroom : s.channel.outlet.spend Handshake.serverSize with
      | none =>
          have hroom' : t.channel.outlet.spend Handshake.serverSize = none := by rwa [h.outlet]
          exact .step (step_of_failed (Session.secure_of_refusal hi hroom))
            (step_of_failed (Session.secure_of_refusal hj hroom')) (matches_finish h host _)
      | some outlet =>
          have hroom' : t.channel.outlet.spend Handshake.serverSize = some outlet := by
            rwa [h.outlet]
          refine .step (step_of_done hi hroom) (step_of_done hj hroom') (.serving ?_ rfl hrest)
          exact h.underTls host rest rest' outlet
  | failed fault =>
      exact .step (step_of_failed (Session.secure_of_failed hi))
        (step_of_failed (Session.secure_of_failed hj)) (matches_finish h host _)
  | waiting => exact .stop (step_of_waiting hi) (step_of_waiting hj)

/-- Whether the handshakes that two runs come to, if they do, read the same. -/
def SameHandshake (host : Host σ κ) (r q : Run σ) : Prop :=
  ∀ lines lines' s t, Reaches host r lines ⟨.securing, s⟩ → Reaches host q lines' ⟨.securing, t⟩ →
    Handshake.taken {} s.channel.inlet.incoming = Handshake.taken {} t.channel.inlet.incoming

theorem SameHandshake.next {next next' : Run σ} (h : SameHandshake host r q)
    (hstep : r.step host = some next) (hstep' : q.step host = some next') :
    SameHandshake host next next' := fun _ _ s t hs ht =>
  h _ _ s t (.step hstep hs) (.step hstep' ht)

theorem Matches.pace (h : r.Matches q) (hshake : SameHandshake host r q) : Pace host r q := by
  cases h with
  | serving h hlive hinlets => exact pace_serving h hlive hinlets
  | securing h hstreams => exact pace_securing h hstreams (hshake _ _ _ _ (.refl _) (.refl _))
  | ended result h => exact .stop rfl rfl

/-! ## Clients that wait for the reply -/

/-- Whether a run has a handshake next on its stream, or is through with handshakes. -/
inductive Awaits (more : List Arrival) : Run σ → Prop where
  | before {phase : Phase} {s : Session σ} (hphase : phase = .greeting ∨ phase = .serving)
      (hclear : s.channel.state = .live .clear)
      (hnext : s.channel.inlet.incoming = .handshake :: more) : Awaits more ⟨phase, s⟩
  | securing {s : Session σ} (hnext : s.channel.inlet.incoming = .handshake :: more) :
      Awaits more ⟨.securing, s⟩
  | secured {s : Session σ} (hsecured : s.channel.state = .live .tls) : Awaits more ⟨.serving, s⟩
  | ended (result : Except Failure Unit) (s : Session σ) : Awaits more ⟨.ended result, s⟩

theorem GoesOn.awaits {inlet : Inlet} {more : List Arrival} (h : GoesOn via inlet r)
    (hvia : via = .tls ∨ inlet.incoming = .handshake :: more) : Awaits more r := by
  obtain ⟨phase, s⟩ := r
  obtain ⟨result, rfl⟩ | ⟨rfl, hlive, rfl⟩ := h
  · exact .ended result s
  · cases via with
    | tls => exact .secured hlive
    | clear => exact .before (.inr rfl) hlive (hvia.resolve_left nofun)

theorem Awaits.step {more : List Arrival} {next : Run σ} (h : Awaits more r)
    (hstep : Step host r next) : Awaits more next := by
  -- What is on the stream of a run that serves, if it is not under TLS yet.
  have hserving : ∀ {s via}, r = ⟨.serving, s⟩ → s.channel.state = .live via →
      via = .tls ∨ s.channel.inlet.incoming = .handshake :: more := by
    rintro s via rfl hlive
    cases h with
    | before _ hclear hnext => exact .inr hnext
    | secured hsecured =>
        rw [hlive, ChannelState.live.injEq] at hsecured
        exact .inl hsecured
  cases hstep with
  | greet s =>
      cases h with
      | before _ hclear hnext =>
          exact (goesOn_say (s := s.log .info _) hclear host _).awaits (.inr hnext)
  | @line s via line rest hlive hread =>
      have hrest : via = .tls ∨ rest.incoming = .handshake :: more :=
        (hserving rfl hlive).imp_right
          (RawLine.kept_of_read Inlet.incoming_of_next (.inl ⟨line, hread⟩))
      have hheard : (s.hearing line rest).channel.state = .live via := hlive
      rcases hperform : (s.hearing line rest).perform host
        (Command.ofLine (Channel.lineText line)) with ⟨outcome, t⟩
      have hon := goesOn_settle_or hheard host (Command.ofLine (Channel.lineText line))
      rw [hperform] at hon
      obtain hon | ⟨rfl, hphase⟩ := hon
      · exact hon.awaits hrest
      · cases outcome with
        | done => simp only [settle] at hphase; split at hphase <;> cases hphase
        | failed => cases hphase
        | securing =>
            refine .securing ?_
            rw [(Session.inlet_of_securing hperform).2]
            exact hrest.resolve_left (by decide)
  | @overlong s via rest hlive hread =>
      have hrest : via = .tls ∨ rest.incoming = .handshake :: more :=
        (hserving rfl hlive).imp_right
          (RawLine.kept_of_read Inlet.incoming_of_next (.inr hread))
      exact (goesOn_refuse (s := s.receiving rest) hlive host).awaits hrest
  | ended => exact .ended _ _
  | failed => exact .ended _ _
  | closed => exact .ended _ _
  | @shaken s hdone =>
      rcases hsecure : s.secure host with ⟨outcome, t⟩
      cases Session.upgrade_of_secure hsecure with
      | waiting => simp [hsecure] at hdone
      | failed => exact .ended _ _
      | done _ _ ht =>
          have hlive : t.channel.state = .live .tls := by rw [ht]; rfl
          rw [settle_of_live hlive]
          exact .secured hlive

/-- Clients that begin their handshake only after the reply have handshakes that read the same. -/
theorem sameHandshake_of_head {more others : List Arrival} {i j : Inlet}
    (hclear : s.channel.state = .live .clear) (hi : i.incoming = .handshake :: more)
    (hj : j.incoming = .handshake :: others) (host : Host σ κ) :
    SameHandshake host ⟨.greeting, s.receiving i⟩ ⟨.greeting, s.receiving j⟩ := by
  have htaken : ∀ {k : Inlet} {after lines t}, k.incoming = .handshake :: after →
      Reaches host ⟨.greeting, s.receiving k⟩ lines ⟨.securing, t⟩ →
        Handshake.taken {} t.channel.inlet.incoming = [.handshake] := by
    intro k after lines t hk hreaches
    have hawaits : Awaits after (⟨.securing, t⟩ : Run σ) := hreaches.invariant
      (fun _ _ hstep h => h.step (step_eq_some_iff.mp hstep)) (.before (.inl rfl) hclear hk)
    cases hawaits with
    | before hphase => rcases hphase with hphase | hphase <;> cases hphase
    | securing hnext =>
        rw [hnext]
        rfl
  intro _ _ _ _ hr hq
  rw [htaken hi hr, htaken hj hq]

/-! ## Where runs come to -/

/-- Whether two runs have done the same and come to the same. -/
structure Concurs (r q : Run σ) : Prop where
  session : r.session.Matches q.session
  phase : q.phase = r.phase

theorem Matches.concurs (h : r.Matches q) : r.Concurs q := by
  cases h with
  | serving h => exact ⟨h, rfl⟩
  | securing h => exact ⟨h, rfl⟩
  | ended result h => exact ⟨h, rfl⟩

/-- Runs that match come to the same in the end. -/
theorem Matches.concurs_advance (h : r.Matches q) (hshake : SameHandshake host r q) :
    (r.advance host).Concurs (q.advance host) := by
  induction hmeasure : r.measure using Nat.strongRecOn generalizing r q with
  | ind n ih =>
      cases h.pace hshake with
      | stop hstop hstop' =>
          rw [advance_of_stop hstop, advance_of_stop hstop']
          exact h.concurs
      | @step next next' hstep hstep' hnext =>
          rw [advance_of_step hstep, advance_of_step hstep']
          exact ih next.measure (hmeasure ▸ measure_lt_of_step hstep) hnext
            (hshake.next hstep hstep') rfl

theorem matches_greet (h : s.Matches t) (hlive : s.channel.state = .live via)
    (hinlets : s.channel.inlet.Alike via t.channel.inlet) (host : Host σ κ) :
    (greet host s).Matches (greet host t) :=
  matches_say (h.log .info .info _ _) hlive hinlets host _

/-- Keywords are understood in any case, and nothing else is altered. Sessions whose input is cut at
the same places into lines that ask for the same, and whose handshakes read the same, come to the
same, and on streams with an ending both come to an end. Each line is carried out with its parameter
as it was sent. -/
theorem keywords_in_any_case (host : Host σ κ) {s : Session σ} (hlive : s.channel.state = .live via)
    {i j : Inlet} (hcut : i.Matches via j)
    (hlines : List.Forall₂ Framed.Alike (i.framed via) (j.framed via))
    (hshake : SameHandshake host ⟨.greeting, s.receiving i⟩ ⟨.greeting, s.receiving j⟩) :
    let r : Run σ := ⟨.greeting, s.receiving i⟩
    let q : Run σ := ⟨.greeting, s.receiving j⟩
    (r.advance host).Concurs (q.advance host) ∧
    (Inlet.Ends i.incoming → ∃ result,
      (r.advance host).result? = some result ∧ (q.advance host).result? = some result) ∧
    ∀ {lines last next line}, Reaches host r lines last → last.step host = some next →
      last.line? = some line →
        ∃ command : Command, command.Carries line ∧ Verbatim host command last next := by
  intro r q
  have hinlets := Inlet.alike_of_framed hcut hlines
  have hgreet := matches_greet ((Session.Matches.refl s).receiving i j) hlive hinlets host
  have hr : r.step host = some (greet host (s.receiving i)) := rfl
  have hq : q.step host = some (greet host (s.receiving j)) := rfl
  have hconcurs := hgreet.concurs_advance (hshake.next hr hq)
  rw [← advance_of_step hr, ← advance_of_step hq] at hconcurs
  refine ⟨hconcurs, fun hends => ?_, fun _ hstep hline =>
    verbatim_of_step hline (step_eq_some_iff.mp hstep)⟩
  obtain ⟨result, hresult⟩ := result_advance (r := r) (.inr hends) host
  have hsame : (q.advance host).result? = (r.advance host).result? := by
    rw [result?, result?, hconcurs.phase]
  exact ⟨result, hresult, hsame.trans hresult⟩

/-- A session that goes on under TLS, where an algorithm is selected and permissions are changed. -/
theorem keywords_in_any_case_upgraded :
    let host := { Host.bare (.ok ()) with
      settings := { enableHash := true }, storage := MemoryStore.complete false }
    let s : Session MemoryStore := { channel := {}, ledger := { store := [] } }
    let i : Inlet := ⟨Text.bytes "auth tls\r\n", [.handshake,
      .bytes .tls (Text.bytes "opts hash MD5\r\nsite chmod 600 a\r\n"), .finish true]⟩
    let j : Inlet := ⟨Text.bytes "AUTH tls\r\n", [.handshake,
      .bytes .tls (Text.bytes "Opts HASH MD5\r\nSITE Chmod 600 a\r\n"), .finish true]⟩
    (advance host ⟨.greeting, s.receiving i⟩).Concurs (advance host ⟨.greeting, s.receiving j⟩) ∧
      ∃ result, (advance host ⟨.greeting, s.receiving i⟩).result? = some result ∧
        (advance host ⟨.greeting, s.receiving j⟩).result? = some result := by
  intro host s i j
  have hauth : SameRequest (Text.bytes "auth tls\r\n") (Text.bytes "AUTH tls\r\n") :=
    .verb (@SameButWord.followed (Text.bytes "auth") (Text.bytes "AUTH") (by decide) (by decide)
      (Text.bytes "tls\r\n"))
  have hopts : SameRequest (Text.bytes "opts hash MD5\r\n") (Text.bytes "Opts HASH MD5\r\n") :=
    @SameRequest.keyword (Text.bytes "opts") (Text.bytes "Opts") (Text.bytes "hash MD5\r\n")
      (Text.bytes "HASH MD5\r\n") (by decide) (by decide) (by decide)
      (@SameButWord.followed (Text.bytes "hash") (Text.bytes "HASH") (by decide) (by decide)
        (Text.bytes "MD5\r\n"))
  have hsite : SameRequest (Text.bytes "site chmod 600 a\r\n")
      (Text.bytes "SITE Chmod 600 a\r\n") :=
    @SameRequest.keyword (Text.bytes "site") (Text.bytes "SITE") (Text.bytes "chmod 600 a\r\n")
      (Text.bytes "Chmod 600 a\r\n") (by decide) (by decide) (by decide)
      (@SameButWord.followed (Text.bytes "chmod") (Text.bytes "Chmod") (by decide) (by decide)
        (Text.bytes "600 a\r\n"))
  have hsecured : List.Forall₂ Framed.Alike (Inlet.framed .tls ⟨[], i.incoming.tail⟩)
      (Inlet.framed .tls ⟨[], j.incoming.tail⟩) :=
    .cons (.line hopts) (.cons (.line hsite) .nil)
  have hcut : i.Matches .clear j :=
    ⟨by decide, .handshake hsecured (.cons (.bytes (by decide)) (.cons (.finish true) (.nil _)))⟩
  have hshake : SameHandshake host ⟨.greeting, s.receiving i⟩ ⟨.greeting, s.receiving j⟩ :=
    sameHandshake_of_head rfl rfl rfl host
  obtain ⟨hconcurs, hends, -⟩ :=
    keywords_in_any_case host (s := s) rfl hcut (.cons (.line hauth) .nil) hshake
  refine ⟨hconcurs, hends ?_⟩
  simp [i, Inlet.Ends, Arrival.IsLast]

end Run

end FtpControl

import FtpControl.Proofs.Session.LifeCycle

/-!
# One reply to every command

With a peer that takes all that it is sent, a dispatch on an open channel writes one reply and
fails in one way only: in the handshake that follows a granted request for TLS. Whatever the
storage reports, the session goes on.
-/

namespace FtpControl

namespace Outlet

/-- Whether the peer takes whatever it is sent. -/
def TakesAll (o : Outlet) : Prop := ∀ via bytes, o.Takes via bytes

theorem takesAll_iff {o : Outlet} : o.TakesAll ↔ o.stuck = false ∧ o.room = none := by
  constructor
  · intro h
    have hstuck : o.stuck = false := by
      cases hs : o.stuck with
      | false => rfl
      | true =>
          have hnil := h .clear []
          simp [Takes, send, hs] at hnil
    refine ⟨hstuck, ?_⟩
    cases hroom : o.room with
    | none => rfl
    | some n =>
        -- One byte more than there is room for.
        have hlong := h .clear (List.replicate (n + 1) 0)
        have hmore : ¬ n + 1 ≤ n := by omega
        simp [Takes, send, hstuck, hroom, hmore] at hlong
  · rintro ⟨hstuck, hroom⟩ via bytes
    rw [Takes, send_unbounded hstuck hroom]

theorem TakesAll.send_eq {o : Outlet} (h : o.TakesAll) (via : Protection) (bytes : List UInt8) :
    (o.send via bytes).2.2 = o := by
  obtain ⟨hstuck, hroom⟩ := takesAll_iff.mp h
  rw [send_unbounded hstuck hroom]

theorem TakesAll.renewed_eq {o : Outlet} (h : o.TakesAll) : o.renewed = o := by
  obtain ⟨hstuck, -⟩ := takesAll_iff.mp h
  rw [renewed, ← hstuck]

theorem TakesAll.spend_eq {o : Outlet} (h : o.TakesAll) (size : Nat) :
    o.spend size = some o := by
  obtain ⟨-, hroom⟩ := takesAll_iff.mp h
  rw [spend, hroom]

end Outlet

/-- What a dispatch comes to with the handshake at its end. -/
def Handshake.outcome (spoiledText : Opening → List UInt8 → String) : Handshake → Outcome
  | done _ => .done
  | failed fault => .failed (.handshakeFailed (fault.text spoiledText))
  | waiting => .securing

namespace Session

variable {σ κ : Type} {host : Host σ κ} {command : Command} {s : Session σ} {via : Protection}

/-- Whether a command gets TLS granted on a channel. -/
def GetsTls (host : Host σ κ) (command : Command) (via : Protection) : Prop :=
  Text.upper command.verb = "AUTH" ∧ via = .clear ∧ host.tls = .ok ()

theorem outcome_secure (host : Host σ κ) (h : s.channel.outlet.TakesAll) :
    (s.secure host).1 = (Handshake.ofStream s.channel.inlet.incoming).outcome host.spoiledText := by
  rw [secure, Channel.secure]
  cases hshake : Handshake.ofStream s.channel.inlet.incoming with
  | waiting => rfl
  | failed fault => rfl
  | done rest =>
      simp only [h.spend_eq]
      rfl

/-- Where TLS is granted, a dispatch comes to what the handshake comes to. -/
theorem outcome_dispatch_of_secure (hlive : s.channel.state = .live via)
    (htakes : s.channel.outlet.TakesAll)
    (hnext : (s.answerTo host command).sequel = .secure) :
    (s.dispatch host command).1 =
      (Handshake.ofStream s.channel.inlet.incoming).outcome host.spoiledText := by
  have hcourse := s.course_perform host command
  rcases hperform : s.perform host command with ⟨outcome, t⟩
  rw [hperform] at hcourse
  cases hcourse with
  | closed h => simp [hlive] at h
  | cut _ hsend => exact absurd (htakes _ _) hsend
  | stay _ _ hstay => simp [hnext] at hstay
  | hangUp _ _ hquit => simp [hnext] at hquit
  | secure _ _ _ ht =>
      have houtlet : t.channel.outlet = s.channel.outlet := by
        subst ht
        show ((s.channel.outlet.send .clear _).2.2).renewed = _
        rw [htakes.send_eq, htakes.renewed_eq]
      have hinlet : t.channel.inlet.incoming = s.channel.inlet.incoming := by
        subst ht
        rfl
      have hdispatch : s.dispatch host command = t.secure host := by
        rw [dispatch, hperform]
      rw [hdispatch, ← hinlet]
      apply outcome_secure
      rw [houtlet]
      exact htakes

theorem reply_granting (hlive : s.channel.state = .live via)
    (hgets : GetsTls host command via) : (s.answerTo host command).reply = .granting := by
  obtain ⟨hauth, rfl, htls⟩ := hgets
  have hsecure : s.channel.isSecure = false := by simp [Channel.isSecure, hlive]
  rw [answerTo, Answer.toCommand_auth host hauth, Answer.toAuth, hsecure, htls]
  rfl

/-- All of the reply is written, and nothing else. -/
theorem written_dispatch (host : Host σ κ) (command : Command)
    (hlive : s.channel.state = .live via) (htakes : s.channel.outlet.TakesAll) :
    (s.dispatch host command).2.ledger.written =
      s.ledger.written ++ [(via, s.replyBytes host command)] := by
  have hall : s.channel.outlet.Takes via (s.replyBytes host command) := htakes _ _
  rw [dispatch_writes host command hlive, hall.delivered_eq]

/-- Unless TLS is granted nothing fails, and unless the client leaves the channel stays open. -/
theorem dispatch_of_not_getsTls (hlive : s.channel.state = .live via)
    (htakes : s.channel.outlet.TakesAll) (hno : ¬ GetsTls host command via) :
    (s.dispatch host command).1 = .done ∧
      (Text.upper command.verb ≠ "QUIT" →
        (s.dispatch host command).2.channel.state = .live via) := by
  have hsecure : (s.answerTo host command).sequel = .secure ↔ GetsTls host command via :=
    sequel_answerTo_eq_secure_iff hlive
  rcases hdispatch : s.dispatch host command with ⟨outcome, t⟩
  have hpassage := passage_of_dispatch hdispatch
  rw [hlive] at hpassage
  generalize t.channel.state = after at hpassage
  cases hpassage with
  | cut hcut => exact absurd (htakes _ _) hcut
  | stay => exact ⟨rfl, fun _ => rfl⟩
  | left _ hnext =>
      have hquit := sequel_answerTo_eq_hangUp_iff.mp hnext
      exact ⟨rfl, fun hstays => absurd hquit hstays⟩
  | spoiled _ hnext => exact absurd (hsecure.mp hnext) hno
  | secured _ hnext => exact absurd (hsecure.mp hnext) hno

/-- One reply is written, and nothing fails but a handshake after TLS was granted; the session goes
on unless the client leaves. -/
theorem dispatch_replies_once (host : Host σ κ) (command : Command)
    (hlive : s.channel.state = .live via) (htakes : s.channel.outlet.TakesAll) :
    ∃ reply : Reply,
      (s.dispatch host command).2.ledger.written =
        s.ledger.written ++ [(via, Text.bytes reply.render)] ∧
      (¬ GetsTls host command via →
        (s.dispatch host command).1 = .done ∧
          (Text.upper command.verb ≠ "QUIT" →
            (s.dispatch host command).2.channel.state = .live via)) ∧
      (GetsTls host command via →
        reply = .granting ∧
          (s.dispatch host command).1 =
            (Handshake.ofStream s.channel.inlet.incoming).outcome host.spoiledText) := by
  refine ⟨(s.answerTo host command).reply, written_dispatch host command hlive htakes,
    dispatch_of_not_getsTls hlive htakes, ?_⟩
  intro hgets
  have hnext := (sequel_answerTo_eq_secure_iff hlive).mpr hgets
  exact ⟨reply_granting hlive hgets, outcome_dispatch_of_secure hlive htakes hnext⟩

/-- A file that is not there, and a request for TLS with no handshake behind it. -/
theorem dispatch_replies_once_to_failures :
    let host := Host.bare (.ok ())
    let s : Session MemoryStore :=
      { channel := { inlet := ⟨[], [.bytes .clear (Text.bytes "NOOP\r\n")]⟩ }
        ledger := { store := [] } }
    (∃ reply : Reply,
      (s.dispatch host ⟨"STAT", "a"⟩).2.ledger.written = [(.clear, Text.bytes reply.render)] ∧
        (s.dispatch host ⟨"STAT", "a"⟩).1 = .done) ∧
      (s.dispatch host ⟨"AUTH", "TLS"⟩).2.ledger.written =
        [(.clear, Text.bytes Reply.granting.render)] ∧
      (s.dispatch host ⟨"AUTH", "TLS"⟩).1 = .failed (.handshakeFailed
        "received corrupt message of type InvalidContentType") := by
  intro host s
  have htakes : s.channel.outlet.TakesAll := Outlet.takesAll_iff.mpr ⟨rfl, rfl⟩
  obtain ⟨reply, hwritten, hdone, -⟩ := dispatch_replies_once host ⟨"STAT", "a"⟩ rfl htakes
  obtain ⟨granting, hgranting, -, hgets⟩ :=
    dispatch_replies_once host ⟨"AUTH", "TLS"⟩ rfl htakes
  obtain ⟨rfl, hfailed⟩ := hgets ⟨by decide, rfl, rfl⟩
  refine ⟨⟨reply, hwritten, (hdone ?_).1⟩, hgranting, hfailed.trans (by decide +kernel)⟩
  rintro ⟨hauth, -⟩
  exact absurd hauth (by decide)

/-- Over any number of commands, each has one reply and none fails. -/
theorem history_goes_on {turns : List (Turn σ κ)} (hlive : s.channel.state = .live via)
    (htakes : ∀ turn ∈ turns, turn.outlet.TakesAll)
    (hno : ∀ turn ∈ turns, ¬ GetsTls turn.host turn.command via)
    (hstays : ∀ turn ∈ turns, Text.upper turn.command.verb ≠ "QUIT") :
    ∀ d ∈ history turns s, d.outcome = .done ∧
      d.writes = [(via, d.before.replyBytes d.turn.host d.turn.command)] := by
  induction turns generalizing s with
  | nil => simp [history]
  | cons turn turns ih =>
      rw [List.forall_mem_cons] at htakes hno hstays
      have hbefore : (turn.make s).before.channel.state = .live via := hlive
      obtain ⟨hdone, hafter⟩ := dispatch_of_not_getsTls hbefore htakes.1 hno.1
      have hwritten := written_dispatch turn.host turn.command hbefore htakes.1
      intro d hd
      rw [history, List.mem_cons] at hd
      rcases hd with rfl | hd
      · exact ⟨hdone, Dispatched.writes_eq hwritten⟩
      · exact ih (hafter hstays.1) htakes.2 hno.2 hstays.2 d hd

end Session

end FtpControl

import FtpControl.Proofs.Session.Course

/-!
# What a dispatch does to the channel

A dispatch on an open channel writes one reply, or the front of one that the peer does not take. It
leaves the channel as it was, closes it, or brings it under TLS; a closed channel stays closed.
-/

namespace FtpControl

/-- The ways of a channel from state to state. -/
inductive ChannelState.Moves : ChannelState → ChannelState → Prop where
  | stay (state : ChannelState) : Moves state state
  | secure : Moves (.live .clear) (.live .tls)
  | close (via : Protection) : Moves (.live via) .closed

namespace Session

variable {σ κ : Type}

/-- The passages of a channel through a dispatch: its state before, what the dispatch comes to, its
state after, and what was written. -/
inductive Passage (host : Host σ κ) (command : Command) (s t : Session σ) :
    ChannelState → Outcome → ChannelState → Prop where
  | closed (hw : t.ledger.written = s.ledger.written) :
      Passage host command s t .closed (.failed .channelClosed) .closed
  /-- The peer did not take all of the reply. -/
  | cut {via fault delivered rest}
      (hsend : ¬ s.channel.outlet.Takes via (s.replyBytes host command))
      (hcut : s.replyBytes host command = delivered ++ rest)
      (hw : t.ledger.written = s.ledger.written ++ [(via, delivered)]) :
      Passage host command s t (.live via) (.failed fault) (.live via)
  | stay {via} (hsend : s.channel.outlet.Takes via (s.replyBytes host command))
      (hnext : (s.answerTo host command).sequel = .stay)
      (hw : t.ledger.written = s.ledger.written ++ [(via, s.replyBytes host command)]) :
      Passage host command s t (.live via) .done (.live via)
  | left {via} (hsend : s.channel.outlet.Takes via (s.replyBytes host command))
      (hnext : (s.answerTo host command).sequel = .hangUp)
      (hw : t.ledger.written = s.ledger.written ++ [(via, s.replyBytes host command)]) :
      Passage host command s t (.live via) .done .closed
  /-- The handshake did not come to an end, or not to a good one. -/
  | spoiled {outcome} (hsend : s.channel.outlet.Takes .clear (s.replyBytes host command))
      (hnext : (s.answerTo host command).sequel = .secure)
      (hno : ¬ (s.channel.givenUp (s.replyBytes host command)).Shakes) (ho : outcome ≠ .done)
      (hw : t.ledger.written = s.ledger.written ++ [(.clear, s.replyBytes host command)]) :
      Passage host command s t (.live .clear) outcome .closed
  | secured (hsend : s.channel.outlet.Takes .clear (s.replyBytes host command))
      (hnext : (s.answerTo host command).sequel = .secure)
      (hshakes : (s.channel.givenUp (s.replyBytes host command)).Shakes)
      (hw : t.ledger.written = s.ledger.written ++ [(.clear, s.replyBytes host command)]) :
      Passage host command s t (.live .clear) .done (.live .tls)

theorem written_answered (host : Host σ κ) (command : Command) (s : Session σ) :
    (s.answered host command).ledger.written = s.ledger.written :=
  Answer.written_toCommand ..

theorem written_replied (host : Host σ κ) (command : Command) (via : Protection)
    (s : Session σ) :
    (s.replied host command via).ledger.written =
      s.ledger.written ++ [(via, s.replyBytes host command)] := by
  simp [replied, replyBytes, written_answered]

theorem passage_of_upgrade {host : Host σ κ} {command : Command} {s t : Session σ}
    {outcome : Outcome} (hsend : s.channel.outlet.Takes .clear (s.replyBytes host command))
    (hnext : (s.answerTo host command).sequel = .secure)
    (h : Upgrade host (s.replied host command .clear).detached t outcome) :
    Passage host command s t (.live .clear) outcome t.channel.state := by
  have hw := written_replied host command .clear s
  cases h with
  | waiting hno ht =>
      subst ht
      exact .spoiled hsend hnext hno (by simp) hw
  | failed hno ht =>
      subst ht
      exact .spoiled hsend hnext hno (by simp) hw
  | done hdone hroom ht =>
      subst ht
      have hserver := Option.isSome_of_eq_some hroom
      exact .secured hsend hnext ⟨⟨_, hdone⟩, hserver⟩ ((Ledger.written_log ..).trans hw)

/-- Every dispatch is one of the passages. -/
theorem passage_of_dispatch {host : Host σ κ} {command : Command} {s t : Session σ}
    {outcome : Outcome} (h : s.dispatch host command = (outcome, t)) :
    Passage host command s t s.channel.state outcome t.channel.state := by
  rcases hperform : s.perform host command with ⟨performed, u⟩
  rw [dispatch, hperform] at h
  cases course_of_perform hperform with
  | closed hs hu =>
      obtain ⟨rfl, rfl⟩ := Prod.mk.injEq .. ▸ h
      have ht : u.channel.state = .closed := by rw [hu]; exact hs
      rw [hs, ht]
      exact .closed (by rw [hu]; exact written_answered ..)
  | @cut via _ _ _ _ hs hsend hcut hu =>
      obtain ⟨rfl, rfl⟩ := Prod.mk.injEq .. ▸ h
      have ht : u.channel.state = .live via := by rw [hu]; exact hs
      rw [hs, ht]
      apply Passage.cut hsend hcut
      rw [hu, Ledger.written_wrote, written_answered]
  | @stay via hs hsend hnext hu =>
      obtain ⟨rfl, rfl⟩ := Prod.mk.injEq .. ▸ h
      have ht : u.channel.state = .live via := by rw [hu]; exact hs
      rw [hs, ht]
      exact .stay hsend hnext (by rw [hu]; exact written_replied ..)
  | @hangUp via hs hsend hnext hu =>
      obtain ⟨rfl, rfl⟩ := Prod.mk.injEq .. ▸ h
      have ht : u.channel.state = .closed := by
        rw [hu]
        exact state_hangUp host (s := s.replied host command via) hs
      rw [hs, ht]
      apply Passage.left hsend hnext
      rw [hu, written_hangUp]
      exact written_replied ..
  | secure hs hsend hnext hu =>
      have hsecure : u.secure host = (outcome, t) := h
      rw [hu] at hsecure
      rw [hs]
      exact passage_of_upgrade hsend hnext (upgrade_of_secure hsecure)

/-! ## What a passage leaves behind -/

namespace Passage

variable {host : Host σ κ} {command : Command} {s t : Session σ} {before after : ChannelState}
  {outcome : Outcome} {via : Protection}

theorem moves (h : Passage host command s t before outcome after) : before.Moves after := by
  cases h with
  | closed => exact .stay _
  | cut => exact .stay _
  | stay => exact .stay _
  | left => exact .close _
  | spoiled => exact .close _
  | secured => exact .secure

/-- A channel comes under TLS only after a reply that was taken and a handshake that was done. -/
theorem upgraded (h : Passage host command s t (.live .clear) outcome (.live .tls)) :
    (s.answerTo host command).sequel = .secure ∧
      s.channel.outlet.Takes .clear (s.replyBytes host command) ∧
      (s.channel.givenUp (s.replyBytes host command)).Shakes := by
  cases h with
  | secured hsend hnext hshakes => exact ⟨hnext, hsend, hshakes⟩

/-- Once the reply was taken that a handshake follows, the channel is under TLS or closed, as the
handshake goes. -/
theorem granted (h : Passage host command s t (.live .clear) outcome after)
    (hsend : s.channel.outlet.Takes .clear (s.replyBytes host command))
    (hnext : (s.answerTo host command).sequel = .secure) :
    t.ledger.written = s.ledger.written ++ [(.clear, s.replyBytes host command)] ∧
      ((s.channel.givenUp (s.replyBytes host command)).Shakes →
        outcome = .done ∧ after = .live .tls) ∧
      (¬ (s.channel.givenUp (s.replyBytes host command)).Shakes →
        outcome ≠ .done ∧ after = .closed) := by
  cases h with
  | cut hcut => exact absurd hsend hcut
  | stay _ hnext' => exact absurd (hnext.symm.trans hnext') (by simp)
  | left _ hnext' => exact absurd (hnext.symm.trans hnext') (by simp)
  | spoiled _ _ hno ho hw => exact ⟨hw, fun hshakes => absurd hshakes hno, fun _ => ⟨ho, rfl⟩⟩
  | secured _ _ hshakes hw => exact ⟨hw, fun _ => ⟨rfl, rfl⟩, fun hno => absurd hshakes hno⟩

/-- On an open channel one write is made: all of the reply, or the front of it. -/
theorem of_live (h : Passage host command s t (.live via) outcome after) :
    ∃ delivered rest, t.ledger.written = s.ledger.written ++ [(via, delivered)] ∧
      s.replyBytes host command = delivered ++ rest ∧
      (s.channel.outlet.Takes via (s.replyBytes host command) → rest = []) := by
  cases h with
  | cut hsend hcut hw => exact ⟨_, _, hw, hcut, fun h => absurd h hsend⟩
  | stay _ _ hw => exact ⟨_, [], hw, (List.append_nil _).symm, fun _ => rfl⟩
  | left _ _ hw => exact ⟨_, [], hw, (List.append_nil _).symm, fun _ => rfl⟩
  | spoiled _ _ _ _ hw => exact ⟨_, [], hw, (List.append_nil _).symm, fun _ => rfl⟩
  | secured _ _ _ hw => exact ⟨_, [], hw, (List.append_nil _).symm, fun _ => rfl⟩

end Passage

/-- A dispatch on an open channel makes one write: what the peer takes of its reply. -/
theorem dispatch_writes (host : Host σ κ) (command : Command) {s : Session σ}
    {via : Protection} (hlive : s.channel.state = .live via) :
    (s.dispatch host command).2.ledger.written = s.ledger.written ++
      [(via, (s.channel.outlet.send via (s.replyBytes host command)).1)] := by
  cases hout : (s.channel.outlet.send via (s.replyBytes host command)).2.1 with
  | ok =>
      have htakes : s.channel.outlet.Takes via (s.replyBytes host command) := hout
      have hpassage : Passage host command s (s.dispatch host command).2 s.channel.state _ _ :=
        passage_of_dispatch rfl
      rw [hlive] at hpassage
      obtain ⟨delivered, rest, hwritten, hcut, hall⟩ := hpassage.of_live
      rw [hall htakes, List.append_nil] at hcut
      rw [hwritten, htakes.delivered_eq, hcut]
  | error fault =>
      rw [dispatch, perform, reply_eq, send,
        Channel.send_error (c := (s.answered host command).channel) hlive hout]
      exact (Ledger.written_wrote ..).trans (congrArg (· ++ _) (written_answered host command s))

/-- A dispatch on an open channel makes one write: its reply, or the front of it that the peer
takes. -/
theorem dispatch_writes_reply (host : Host σ κ) (command : Command) {s : Session σ}
    {via : Protection} (hlive : s.channel.state = .live via) :
    ∃ delivered, (s.dispatch host command).2.ledger.written =
        s.ledger.written ++ [(via, delivered)] ∧
      delivered <+: s.replyBytes host command ∧
      (s.channel.outlet.Takes via (s.replyBytes host command) →
        delivered = s.replyBytes host command) := by
  obtain ⟨rest, hcut⟩ := s.channel.outlet.delivered_append via (s.replyBytes host command)
  exact ⟨_, dispatch_writes host command hlive, ⟨rest, hcut.symm⟩, Outlet.Takes.delivered_eq⟩

end Session

end FtpControl

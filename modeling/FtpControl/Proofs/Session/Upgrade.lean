import FtpControl.Proofs.Channel.Provenance
import FtpControl.Proofs.Session.Course

/-!
# Nothing is carried over into TLS

A session that accepts a request for TLS gives up the bytes it holds. Whatever they are, the rest
of its run is the same, and the lines that it then carries out are made of bytes that came under
TLS, after the handshake.
-/

namespace FtpControl

variable {σ κ : Type}

namespace Session

/-- The session with other bytes taken from the stream but not consumed. -/
def holding (held : List UInt8) (s : Session σ) : Session σ :=
  { s with channel := { s.channel with inlet := { s.channel.inlet with held } } }

def supply (more : List Arrival) (s : Session σ) : Session σ :=
  { s with channel := { s.channel with inlet :=
      { s.channel.inlet with incoming := s.channel.inlet.incoming ++ more } } }

/-- A reply does not depend on what is held. -/
theorem send_holding (held : List UInt8) (reply : Reply) (s : Session σ) :
    (s.holding held).send reply = ((s.send reply).1, (s.send reply).2.holding held) := by
  obtain ⟨profile, ⟨inlet, outlet, state⟩, ledger⟩ := s
  cases state with
  | closed => rfl
  | live via =>
      simp only [send, Channel.send, holding]
      rcases outlet.send via (Text.bytes reply.render) with ⟨delivered, _ | _, outlet⟩ <;> rfl

/-- What is held matters to a command only in what follows its reply. -/
theorem send_answered_holding (host : Host σ κ) (command : Command) (held : List UInt8)
    (s : Session σ) :
    ((s.holding held).answered host command).send ((s.holding held).answerTo host command).reply =
      (((s.answered host command).send (s.answerTo host command).reply).1,
        ((s.answered host command).send (s.answerTo host command).reply).2.holding held) :=
  send_holding held (s.answerTo host command).reply (s.answered host command)

end Session

/-! ## Runs that are given more and more -/

namespace Run

def holding (held : List UInt8) (r : Run σ) : Run σ := { r with session := r.session.holding held }

def supply (more : List Arrival) (r : Run σ) : Run σ := { r with session := r.session.supply more }

/-- The run after more has come again and again, each time when it could not go on. -/
def proceed (host : Host σ κ) (r : Run σ) : List (List Arrival) → Run σ
  | [] => r.advance host
  | more :: batches => proceed host ((r.advance host).supply more) batches

/-- The line that the next step of a run carries out. -/
def line? (r : Run σ) : Option (List UInt8) :=
  match r.phase, r.session.channel.state with
  | .serving, .live via =>
      match RawLine.read via r.session.channel.inlet with
      | .line bytes _ => some bytes
      | _ => none
  | _, _ => none

/-- The lines that a run carries out as far as the input allows. -/
def heard (host : Host σ κ) (r : Run σ) : List (List UInt8) :=
  match h : r.step host with
  | none => []
  | some next =>
      have : next.measure < r.measure := measure_lt_of_step h
      r.line?.toList ++ heard host next
termination_by r.measure

/-- The lines that a run carries out while more comes again and again. -/
def heardThrough (host : Host σ κ) (r : Run σ) : List (List Arrival) → List (List UInt8)
  | [] => r.heard host
  | more :: batches => r.heard host ++ heardThrough host ((r.advance host).supply more) batches

/-! ## The request for TLS -/

/-- A session that is asked for TLS waits for the handshake without anything held, or its reply
did not get through and it is over. -/
theorem settle_auth {host : Host σ κ} (htls : host.tls = .ok ()) {s : Session σ}
    (hclear : s.channel.state = .live .clear) {command : Command}
    (hauth : Text.upper command.verb = "AUTH") :
    (∃ t : Session σ, t.channel.inlet = ⟨[], s.channel.inlet.incoming⟩ ∧
      ∀ held, settle host ((s.holding held).perform host command) = ⟨.securing, t⟩) ∨
    (∃ failure, ∃ t : Session σ,
      ∀ held, settle host ((s.holding held).perform host command) =
        finish host (.error failure) (t.holding held)) := by
  have hsent := Session.sent_send (s.answerTo host command).reply (s.answered host command)
  have hheld := fun held => s.send_answered_holding host command held
  generalize (s.answered host command).send (s.answerTo host command).reply = out
    at hsent hheld
  have hnext : (s.answerTo host command).sequel = .secure :=
    (Session.sequel_answerTo_eq_secure_iff hclear).mpr ⟨hauth, rfl, htls⟩
  obtain ⟨answer, t⟩ := out
  cases hsent with
  | closed h => exact absurd (hclear.symm.trans h) (by simp)
  | cut => exact .inr ⟨_, _, fun held => by rw [Session.perform_of_error (hheld held)]; rfl⟩
  | @whole via h _ =>
      refine .inl ⟨(s.replied host command via).detached, rfl, fun held => ?_⟩
      rw [Session.perform_of_ok (hheld held)]
      show settle host (Session.follow host (s.answerTo host command).sequel
        ((s.replied host command via).holding held)) = _
      rw [hnext, Session.follow,
        Session.detach_clear (s := (s.replied host command via).holding held) hclear]
      rfl

/-! ## Runs under TLS -/

/-- Whether a run is over, or still serves a channel as protected and with what is to receive. -/
def GoesOn (via : Protection) (inlet : Inlet) (r : Run σ) : Prop :=
  (∃ result, r.phase = .ended result) ∨
    (r.phase = .serving ∧ r.session.channel.state = .live via ∧ r.session.channel.inlet = inlet)

theorem goesOn_say {via : Protection} {s : Session σ} (h : s.channel.state = .live via)
    (host : Host σ κ) (reply : Reply) : (say host reply s).GoesOn via s.channel.inlet := by
  have hsent := Session.sent_send reply s
  unfold say
  generalize s.send reply = out at hsent ⊢
  obtain ⟨answer, t⟩ := out
  cases hsent with
  | closed => exact .inl ⟨_, rfl⟩
  | cut => exact .inl ⟨_, rfl⟩
  | whole => exact .inr ⟨rfl, h, rfl⟩

theorem goesOn_refuse {via : Protection} {s : Session σ} (h : s.channel.state = .live via)
    (host : Host σ κ) : (refuse host s).GoesOn via s.channel.inlet :=
  goesOn_say (s := s.log .warn _) h host _

/-- A command leaves the channel as it is, ends the session, or has a handshake follow. -/
theorem goesOn_settle_or {via : Protection} {s : Session σ} (h : s.channel.state = .live via)
    (host : Host σ κ) (command : Command) :
    (settle host (s.perform host command)).GoesOn via s.channel.inlet ∨
      via = .clear ∧ (settle host (s.perform host command)).phase = .securing := by
  rcases hperform : s.perform host command with ⟨outcome, t⟩
  cases Session.course_of_perform hperform with
  | closed => exact .inl (.inl ⟨_, rfl⟩)
  | cut => exact .inl (.inl ⟨_, rfl⟩)
  | stay _ _ _ ht =>
      have hstate : t.channel.state = .live via := by rw [ht]; exact h
      rw [settle_of_live hstate]
      exact .inl (.inr ⟨rfl, hstate, by rw [ht]; rfl⟩)
  | hangUp hlive _ _ ht =>
      have hstate : t.channel.state = .closed := by
        rw [ht]
        exact Session.state_hangUp host (s := s.replied host command _) hlive
      rw [settle_of_closed hstate]
      exact .inl (.inl ⟨_, rfl⟩)
  | secure hlive =>
      rw [h, ChannelState.live.injEq] at hlive
      exact .inr ⟨hlive, rfl⟩

/-- Under TLS, a command leaves the channel as it is or ends the session. -/
theorem goesOn_settle {s : Session σ} (h : s.channel.state = .live .tls) (host : Host σ κ)
    (command : Command) :
    (settle host (s.perform host command)).GoesOn .tls s.channel.inlet := by
  rcases goesOn_settle_or h host command with hon | ⟨hclear, -⟩
  · exact hon
  · cases hclear

/-- Whether a run is on its way to TLS, under TLS, or over. -/
def Secured (r : Run σ) : Prop :=
  match r.phase with
  | .greeting => False
  | .serving => r.session.channel.state = .live .tls
  | _ => True

/-- The bytes that a run may yet carry out in lines when more comes after its stream. -/
def reserve (more : List Arrival) (r : Run σ) : List UInt8 :=
  match r.phase with
  | .serving => r.session.channel.inlet.readable .tls ++ Inlet.payload .tls more
  | .securing => Inlet.afterHandshake (r.session.channel.inlet.incoming ++ more)
  | _ => []

theorem reserve_serving (more : List Arrival) (s : Session σ) :
    reserve more ⟨.serving, s⟩ =
      s.channel.inlet.readable .tls ++ Inlet.payload .tls more := rfl

theorem GoesOn.secured {inlet : Inlet} {r : Run σ} (h : r.GoesOn .tls inlet) : r.Secured := by
  rcases h with ⟨result, hphase⟩ | ⟨hphase, hstate, -⟩
  · simp [Secured, hphase]
  · simpa [Secured, hphase] using hstate

theorem GoesOn.reserve_sublist {inlet : Inlet} {r : Run σ} (h : r.GoesOn .tls inlet)
    (more : List Arrival) :
    (r.reserve more).Sublist (inlet.readable .tls ++ Inlet.payload .tls more) := by
  rcases h with ⟨result, hphase⟩ | ⟨hphase, -, hinlet⟩
  · simp [reserve, hphase]
  · simp [reserve, hphase, hinlet]

/-- A line under TLS takes its bytes from the reserve. -/
theorem secured_serve {host : Host σ κ} {s : Session σ} {next : Run σ}
    (hs : s.channel.state = .live .tls) (h : serve host s = some next) (more : List Arrival) :
    next.Secured ∧ ((line? ⟨.serving, s⟩).toList.flatten ++ next.reserve more).Sublist
      (reserve more ⟨.serving, s⟩) := by
  rw [serve_eq hs] at h
  cases hr : RawLine.read .tls s.channel.inlet with
  | line bytes rest =>
      rw [hr, Option.some.injEq] at h
      subst h
      have hon := goesOn_settle (s := (s.receiving rest).log .trace
        (">>> " ++ Channel.masked (Channel.lineText bytes))) hs host
          (Command.ofLine (Channel.lineText bytes))
      refine ⟨hon.secured, ?_⟩
      have hrest := (hon.reserve_sublist more).append_left bytes
      simpa [line?, hs, hr, reserve_serving, RawLine.readable_of_line hr] using hrest
  | overlong rest =>
      rw [hr, Option.some.injEq] at h
      subst h
      have hon := goesOn_refuse (s := s.receiving rest) hs host
      refine ⟨hon.secured, ?_⟩
      have hrest := (hon.reserve_sublist more).trans
        ((RawLine.readable_of_overlong hr).sublist.append_right _)
      simpa [line?, hs, hr, reserve_serving] using hrest
  | ended =>
      rw [hr, Option.some.injEq] at h
      subst h
      exact ⟨trivial, by simp [line?, hs, hr, finish, reserve]⟩
  | failed fault rest =>
      rw [hr, Option.some.injEq] at h
      subst h
      exact ⟨trivial, by simp [line?, hs, hr, finish, reserve]⟩
  | waiting => simp [hr] at h

/-- A handshake leaves as reserve what comes under TLS after it. -/
theorem secured_handshake {host : Host σ κ} {s : Session σ} {next : Run σ}
    (h : handshake host s = some next) (more : List Arrival) :
    next.Secured ∧ (next.reserve more).Sublist (reserve more ⟨.securing, s⟩) := by
  rcases hsecure : s.secure host with ⟨outcome, t⟩
  rw [handshake, hsecure] at h
  cases Session.upgrade_of_secure hsecure with
  | waiting => simp at h
  | failed =>
      simp only [settle, Option.some.injEq] at h
      subst h
      exact ⟨trivial, List.nil_sublist _⟩
  | @done rest outlet hdone _ ht =>
      have hstate : t.channel.state = .live .tls := by rw [ht]; rfl
      have hinlet : t.channel.inlet = ⟨[], rest⟩ := by rw [ht]; rfl
      simp only [settle_of_live hstate, Option.some.injEq] at h
      subst h
      refine ⟨hstate, ?_⟩
      have hafter := Handshake.ofStream_append_of_done hdone more
      simp [reserve, hinlet, Inlet.readable, Inlet.afterHandshake, hafter]

/-- Every step of a run on its way to TLS or under it takes the bytes of its line from the
reserve. -/
theorem secured_step {host : Host σ κ} {r next : Run σ} (hr : r.Secured)
    (h : r.step host = some next) (more : List Arrival) :
    next.Secured ∧
      (r.line?.toList.flatten ++ next.reserve more).Sublist (r.reserve more) := by
  obtain ⟨phase, s⟩ := r
  cases phase with
  | greeting => exact hr.elim
  | serving => exact secured_serve hr h more
  | securing => exact secured_handshake h more
  | ended => simp [step] at h

theorem secured_advance (host : Host σ κ) {r : Run σ} (hr : r.Secured) (more : List Arrival) :
    (r.advance host).Secured ∧
      ((r.heard host).flatten ++ (r.advance host).reserve more).Sublist (r.reserve more) := by
  fun_induction heard with
  | case1 r hstop =>
      rw [advance_of_stop hstop]
      exact ⟨hr, List.Sublist.refl _⟩
  | case2 r next hstep _ ih =>
      -- The step takes its line from the front of the reserve, the rest of the run from what is
      -- left of it.
      obtain ⟨hnext, hline⟩ := secured_step hr hstep more
      obtain ⟨hlast, hrest⟩ := ih hnext
      rw [advance_of_step hstep]
      refine ⟨hlast, ?_⟩
      rw [List.flatten_append, List.append_assoc]
      exact (hrest.append_left _).trans hline

theorem secured_supply {r : Run σ} (hr : r.Secured) (more : List Arrival) :
    (r.supply more).Secured := hr

theorem reserve_supply (r : Run σ) (more later : List Arrival) :
    (r.supply more).reserve later = r.reserve (more ++ later) := by
  obtain ⟨phase, s⟩ := r
  cases phase <;> simp [reserve, supply, Session.supply, Inlet.readable]

theorem secured_heardThrough (host : Host σ κ) {r : Run σ} (hr : r.Secured)
    (batches : List (List Arrival)) :
    (r.heardThrough host batches).flatten.Sublist (r.reserve batches.flatten) := by
  induction batches generalizing r with
  | nil =>
      obtain ⟨-, hline⟩ := secured_advance host hr []
      exact (List.sublist_append_left _ _).trans hline
  | cons more batches ih =>
      obtain ⟨hlast, hline⟩ := secured_advance host hr (more ++ batches.flatten)
      have hrest := ih (secured_supply hlast more)
      rw [reserve_supply] at hrest
      rw [heardThrough, List.flatten_append, List.flatten_cons]
      exact (hrest.append_left _).trans hline

/-! ## Whatever was held -/

theorem proceed_ended (host : Host σ κ) (result : Except Failure Unit) (s : Session σ)
    (batches : List (List Arrival)) :
    proceed host ⟨.ended result, s⟩ batches = ⟨.ended result, s.supply batches.flatten⟩ := by
  induction batches generalizing s with
  | nil => simp [proceed, Session.supply]
  | cons more batches ih =>
      rw [proceed, advance_ended]
      exact (ih (s.supply more)).trans (by simp [Session.supply])

theorem heardThrough_ended (host : Host σ κ) (result : Except Failure Unit) (s : Session σ)
    (batches : List (List Arrival)) : heardThrough host ⟨.ended result, s⟩ batches = [] := by
  have hheard : ∀ s : Session σ, heard host ⟨.ended result, s⟩ = [] := by
    intro s
    rw [heard]
    rfl
  induction batches generalizing s with
  | nil => exact hheard s
  | cons more batches ih =>
      rw [heardThrough, hheard, advance_ended]
      exact ih (s.supply more)

/-- The bytes held when TLS is asked for are without effect: whatever they are and whatever comes
later, the session runs on in the same way, the handshake begins with what is still on the stream,
and the lines carried out are made of bytes that come under TLS after it. -/
theorem auth_ignores_held (host : Host σ κ) (htls : host.tls = .ok ()) (s : Session σ)
    (hclear : s.channel.state = .live .clear) (command : Command)
    (hauth : Text.upper command.verb = "AUTH") (held₁ held₂ : List UInt8)
    (batches : List (List Arrival)) :
    let r₁ := settle host ((s.holding held₁).perform host command)
    let r₂ := settle host ((s.holding held₂).perform host command)
    (r₁.proceed host batches).holding [] = (r₂.proceed host batches).holding [] ∧
      r₁.heardThrough host batches = r₂.heardThrough host batches ∧
      (r₁.phase = .securing → r₁.session.channel.inlet = ⟨[], s.channel.inlet.incoming⟩) ∧
      (r₁.heardThrough host batches).flatten.Sublist
        (Inlet.afterHandshake (s.channel.inlet.incoming ++ batches.flatten)) := by
  rcases settle_auth htls hclear hauth with ⟨t, hinlet, hsame⟩ | ⟨failure, t, hsame⟩
  · simp only [hsame, true_and]
    refine ⟨fun _ => hinlet, ?_⟩
    have hlines := secured_heardThrough host (r := ⟨.securing, t⟩) trivial batches
    rwa [reserve, hinlet] at hlines
  · simp only [hsame, finish, proceed_ended, heardThrough_ended, true_and]
    refine ⟨rfl, ?_, List.nil_sublist _⟩
    intro h
    cases h

/-- A command that came in one piece with the request for TLS is lost. -/
theorem auth_ignores_held_pipelined :
    let host := Host.bare (.ok ())
    let s : Session MemoryStore :=
      { channel := { inlet := { incoming := [.handshake, .bytes .tls (Text.bytes "NOOP\r\n")] } }
        ledger := { store := [] } }
    let r := fun held => settle host ((s.holding held).perform host ⟨"AUTH", "TLS"⟩)
    ((r (Text.bytes "QUIT\r\n")).proceed host [[.finish true]]).holding [] =
        ((r []).proceed host [[.finish true]]).holding [] ∧
      ((r (Text.bytes "QUIT\r\n")).heardThrough host [[.finish true]]).flatten.Sublist
        (Text.bytes "NOOP\r\n") := by
  intro host s r
  have hafter : Inlet.afterHandshake
      (s.channel.inlet.incoming ++ [[Arrival.finish true]].flatten) = Text.bytes "NOOP\r\n" := by
    decide
  obtain ⟨hsame, -, -, hlines⟩ := auth_ignores_held host rfl s rfl ⟨"AUTH", "TLS"⟩
    (by decide) (Text.bytes "QUIT\r\n") [] [[.finish true]]
  exact ⟨hsame, hafter ▸ hlines⟩

end Run

end FtpControl

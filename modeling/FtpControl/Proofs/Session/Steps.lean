import FtpControl.Proofs.Session.Upgrade

/-!
# The steps of a run

What a run comes to, it comes to step by step: a step greets, serves one line, or goes through a
handshake, and a run stops where it is over or waits. What every step keeps, a run keeps all along.
-/

namespace FtpControl

variable {σ κ : Type} {host : Host σ κ}

/-- A session that has read a line and logged it. -/
def Session.hearing (line : List UInt8) (rest : Inlet) (s : Session σ) : Session σ :=
  (s.receiving rest).log .trace (">>> " ++ Channel.masked (Channel.lineText line))

namespace Run

/-! ## Settling -/

/-- What is done to a session apart from its log and the state of its connection can be done before
a command is settled or after. -/
theorem settle_map {f : Session σ → Session σ}
    (hstate : ∀ s, (f s).channel.state = s.channel.state)
    (hlog : ∀ s level text, (f s).log level text = f (s.log level text))
    (host : Host σ κ) (o : Outcome × Session σ) :
    settle host (o.1, f o.2) =
      { settle host o with session := f (settle host o).session } := by
  rcases o with ⟨_ | _ | failure, s⟩
  · show settle host (.done, f s) = _
    cases hchannel : s.channel.state with
    | closed =>
        have hclosed : (f s).channel.state = .closed := (hstate s).trans hchannel
        rw [settle_of_closed hchannel, settle_of_closed hclosed, finish, hlog]
        rfl
    | live via =>
        have hlive : (f s).channel.state = .live via := (hstate s).trans hchannel
        rw [settle_of_live hchannel, settle_of_live hlive]
  · rfl
  · show finish host (.error failure) (f s) = _
    rw [finish, hlog]
    rfl

/-! ## Steps -/

/-- The steps of a run: what is read or shaken, and the run that follows. -/
inductive Step (host : Host σ κ) : Run σ → Run σ → Prop where
  | greet (s : Session σ) : Step host ⟨.greeting, s⟩ (greet host s)
  | line {s : Session σ} {via line rest} (hstate : s.channel.state = .live via)
      (hread : RawLine.read via s.channel.inlet = .line line rest) :
      Step host ⟨.serving, s⟩
        (settle host ((s.hearing line rest).perform host
          (Command.ofLine (Channel.lineText line))))
  | overlong {s : Session σ} {via rest} (hstate : s.channel.state = .live via)
      (hread : RawLine.read via s.channel.inlet = .overlong rest) :
      Step host ⟨.serving, s⟩ (refuse host (s.receiving rest))
  | ended {s : Session σ} {via} (hstate : s.channel.state = .live via)
      (hread : RawLine.read via s.channel.inlet = .ended) :
      Step host ⟨.serving, s⟩ (finish host (.ok ()) s)
  | failed {s : Session σ} {via fault rest} (hstate : s.channel.state = .live via)
      (hread : RawLine.read via s.channel.inlet = .failed fault rest) :
      Step host ⟨.serving, s⟩ (finish host (.error fault.toFailure) (s.receiving rest))
  | closed {s : Session σ} (hstate : s.channel.state = .closed) :
      Step host ⟨.serving, s⟩ (finish host (.ok ()) s)
  | shaken {s : Session σ} (hdone : (s.secure host).1 ≠ .securing) :
      Step host ⟨.securing, s⟩ (settle host (s.secure host))

theorem serve_closed {s : Session σ} (h : s.channel.state = .closed) :
    serve host s = some (finish host (.ok ()) s) := by
  obtain ⟨profile, ⟨inlet, outlet, state⟩, ledger⟩ := s
  obtain rfl : state = .closed := h
  rfl

theorem handshake_eq_some_iff {s : Session σ} {next : Run σ} :
    handshake host s = some next ↔
      (s.secure host).1 ≠ .securing ∧ next = settle host (s.secure host) := by
  rw [handshake]
  rcases s.secure host with ⟨_ | _ | _, t⟩ <;> simp [eq_comm]

theorem step_of_serve {s : Session σ} {next : Run σ} (h : serve host s = some next) :
    Step host ⟨.serving, s⟩ next := by
  cases hstate : s.channel.state with
  | closed =>
      rw [serve_closed hstate, Option.some.injEq] at h
      subst h
      exact .closed hstate
  | live via =>
      rw [serve_eq hstate] at h
      cases hread : RawLine.read via s.channel.inlet <;>
        simp only [hread, Option.some.injEq, reduceCtorEq] at h <;> subst h
      · exact .line hstate hread
      · exact .overlong hstate hread
      · exact .ended hstate hread
      · exact .failed hstate hread

theorem step_eq_some_iff {r next : Run σ} : r.step host = some next ↔ Step host r next := by
  constructor
  · intro h
    obtain ⟨phase, s⟩ := r
    cases phase with
    | greeting =>
        simp only [step, Option.some.injEq] at h
        subst h
        exact .greet s
    | serving => exact step_of_serve h
    | securing =>
        obtain ⟨hdone, rfl⟩ := handshake_eq_some_iff.mp h
        exact .shaken hdone
    | ended => simp [step] at h
  · intro h
    cases h with
    | greet => rfl
    | line hstate hread => rw [step, serve_eq hstate, hread]; rfl
    | overlong hstate hread => rw [step, serve_eq hstate, hread]
    | ended hstate hread => rw [step, serve_eq hstate, hread]
    | failed hstate hread => rw [step, serve_eq hstate, hread]
    | closed hstate => exact serve_closed hstate
    | shaken hdone => exact handshake_eq_some_iff.mpr ⟨hdone, rfl⟩

/-- The runs that take no step: those that are over, and those that wait for more input. -/
inductive Stops (host : Host σ κ) : Run σ → Prop where
  | ended (result : Except Failure Unit) (s : Session σ) : Stops host ⟨.ended result, s⟩
  | waiting {s : Session σ} {via} (hstate : s.channel.state = .live via)
      (hread : RawLine.read via s.channel.inlet = .waiting) : Stops host ⟨.serving, s⟩
  | unshaken {s : Session σ} (hwaits : (s.secure host).1 = .securing) :
      Stops host ⟨.securing, s⟩

theorem stops_of_serve {s : Session σ} (h : serve host s = none) : Stops host ⟨.serving, s⟩ := by
  cases hstate : s.channel.state with
  | closed => simp [serve_closed hstate] at h
  | live via =>
      rw [serve_eq hstate] at h
      cases hread : RawLine.read via s.channel.inlet with
      | waiting => exact .waiting hstate hread
      | _ => simp [hread] at h

theorem handshake_eq_none_iff {s : Session σ} :
    handshake host s = none ↔ (s.secure host).1 = .securing := by
  rw [handshake]
  rcases s.secure host with ⟨_ | _ | _, t⟩ <;> simp

theorem step_eq_none_iff {r : Run σ} : r.step host = none ↔ Stops host r := by
  constructor
  · intro h
    obtain ⟨phase, s⟩ := r
    cases phase with
    | greeting => simp [step] at h
    | serving => exact stops_of_serve h
    | securing => exact .unshaken (handshake_eq_none_iff.mp h)
    | ended result => exact .ended result s
  · intro h
    cases h with
    | ended => rfl
    | waiting hstate hread => rw [step, serve_eq hstate, hread]
    | unshaken hwaits => exact handshake_eq_none_iff.mpr hwaits

/-! ## Chains of steps -/

/-- Runs that are some steps apart, and the lines that these steps carry out. -/
inductive Reaches (host : Host σ κ) : Run σ → List (List UInt8) → Run σ → Prop where
  | refl (r : Run σ) : Reaches host r [] r
  | step {r next last lines} (hstep : r.step host = some next)
      (h : Reaches host next lines last) : Reaches host r (r.line?.toList ++ lines) last

theorem heard_of_step {r next : Run σ} (h : r.step host = some next) :
    r.heard host = r.line?.toList ++ next.heard host := by
  rw [heard]
  split
  · next hnone => simp [h] at hnone
  · next hsome =>
      rw [h, Option.some.injEq] at hsome
      rw [hsome]

theorem heard_of_stop {r : Run σ} (h : r.step host = none) : r.heard host = [] := by
  rw [heard]
  split
  · rfl
  · next hsome => simp [h] at hsome

/-- A run reaches its end. -/
theorem reaches_advance (host : Host σ κ) (r : Run σ) :
    Reaches host r (r.heard host) (r.advance host) := by
  fun_induction heard with
  | case1 r hstop =>
      rw [advance_of_stop hstop]
      exact .refl r
  | case2 r next hstep _ ih =>
      rw [advance_of_step hstep]
      exact .step hstep ih

/-- A run goes on until it stops. -/
theorem stops_advance (host : Host σ κ) (r : Run σ) : Stops host (r.advance host) := by
  fun_induction advance with
  | case1 r h => exact step_eq_none_iff.mp h
  | case2 r next h _ ih => exact ih

/-- What every step keeps is kept all along. -/
theorem Reaches.invariant {P : Run σ → Prop}
    (hkeep : ∀ r next, r.step host = some next → P r → P next) {r last : Run σ}
    {lines : List (List UInt8)} (h : Reaches host r lines last) (hr : P r) : P last := by
  induction h with
  | refl => exact hr
  | step hstep _ ih => exact ih (hkeep _ _ hstep hr)

/-! ## Runs without TLS -/

/-- Whether a run never comes to wait for a handshake: no request for TLS is granted. -/
def StaysClear (host : Host σ κ) (r : Run σ) : Prop :=
  ∀ lines last, Reaches host r lines last → last.phase ≠ .securing

theorem StaysClear.phase_ne {r : Run σ} (h : StaysClear host r) : r.phase ≠ .securing :=
  h [] r (.refl r)

theorem StaysClear.next {r next : Run σ} (h : StaysClear host r)
    (hstep : r.step host = some next) : StaysClear host next := by
  intro lines last hreaches
  exact h _ last (.step hstep hreaches)

/-- A run without TLS keeps its channel as it is, or is over. -/
theorem StaysClear.goesOn_settle {s : Session σ} {command : Command}
    (h : StaysClear host (settle host (s.perform host command)))
    (hclear : s.channel.state = .live .clear) :
    (settle host (s.perform host command)).GoesOn .clear s.channel.inlet := by
  rcases goesOn_settle_or hclear host command with hon | ⟨-, hsecuring⟩
  · exact hon
  · exact absurd hsecuring h.phase_ne

theorem phase_say_ne (host : Host σ κ) (reply : Reply) (s : Session σ) :
    (say host reply s).phase ≠ .securing := by
  unfold say
  split <;> simp [finish]

/-- A command has a handshake follow only where TLS is set up. -/
theorem phase_settle_ne {failure : Failure} (htls : host.tls = .error failure) (s : Session σ)
    (command : Command) : (settle host (s.perform host command)).phase ≠ .securing := by
  rcases hperform : s.perform host command with ⟨outcome, t⟩
  have hdone : (settle host (.done, t)).phase ≠ .securing := by
    unfold settle
    simp only
    split <;> simp [finish]
  cases Session.course_of_perform hperform with
  | closed => simp [settle, finish]
  | cut => simp [settle, finish]
  | stay => exact hdone
  | hangUp => exact hdone
  | secure h _ hnext =>
      obtain ⟨-, -, hok⟩ := (Session.sequel_answerTo_eq_secure_iff h).mp hnext
      simp [htls] at hok

theorem phase_step_ne {failure : Failure} (htls : host.tls = .error failure) {r next : Run σ}
    (hr : r.phase ≠ .securing) (h : r.step host = some next) : next.phase ≠ .securing := by
  cases step_eq_some_iff.mp h with
  | greet => exact phase_say_ne host _ _
  | line => exact phase_settle_ne htls _ _
  | overlong => exact phase_say_ne host _ _
  | ended => simp [finish]
  | failed => simp [finish]
  | closed => simp [finish]
  | shaken => exact absurd rfl hr

/-- Where TLS is not set up, no run waits for a handshake. -/
theorem staysClear_of_tls {failure : Failure} (htls : host.tls = .error failure) {r : Run σ}
    (hr : r.phase ≠ .securing) : StaysClear host r := by
  intro lines last hreaches
  exact hreaches.invariant (fun _ _ hstep hphase => phase_step_ne htls hphase hstep) hr

end Run

end FtpControl

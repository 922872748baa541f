import FtpControl.Proofs.Channel.Endings
import FtpControl.Proofs.Session.Steps

/-!
# Sessions on streams with an ending

A session whose stream has an ending comes to its own: it never stops to wait for more.
-/

namespace FtpControl

variable {σ κ : Type}

/-! ## Commands and handshakes -/

namespace Session

variable {s : Session σ}

/-- Carrying out a command takes nothing from the stream. -/
theorem incoming_perform (host : Host σ κ) (command : Command) (s : Session σ) :
    (s.perform host command).2.channel.inlet.incoming = s.channel.inlet.incoming := by
  rcases hperform : s.perform host command with ⟨outcome, t⟩
  cases course_of_perform hperform with
  | closed _ ht => rw [ht]; rfl
  | cut _ _ _ ht => rw [ht]
  | stay _ _ _ ht => rw [ht]; rfl
  | hangUp _ _ _ ht => rw [ht, inlet_hangUp]; rfl
  | secure _ _ _ ht => rw [ht]; rfl

theorem ends_secure (host : Host σ κ) (h : Inlet.Ends s.channel.inlet.incoming) :
    Inlet.Ends (s.secure host).2.channel.inlet.incoming := by
  rcases hsecure : s.secure host with ⟨outcome, t⟩
  cases upgrade_of_secure hsecure with
  | waiting _ ht => rwa [ht]
  | failed _ ht => rwa [ht]
  | done hshake _ ht =>
      have hrest := Handshake.ends_read (o := {}) h
      rw [show Handshake.read {} _ = _ from hshake] at hrest
      rw [ht]
      exact hrest

end Session

/-! ## Runs -/

namespace Run

variable {host : Host σ κ} {r next : Run σ} {s : Session σ}

/-- Whether a run is over, or has a stream with an ending before it. -/
def Ends (r : Run σ) : Prop :=
  (∃ result, r.phase = .ended result) ∨ Inlet.Ends r.session.channel.inlet.incoming

theorem Ends.stream (h : r.Ends) (hon : ∀ result, r.phase ≠ .ended result) :
    Inlet.Ends r.session.channel.inlet.incoming :=
  h.resolve_left fun ⟨result, hended⟩ => hon result hended

theorem ends_say (h : Inlet.Ends s.channel.inlet.incoming) (host : Host σ κ) (reply : Reply) :
    (say host reply s).Ends := by
  have hsent := Session.sent_send reply s
  unfold say
  generalize s.send reply = out at hsent ⊢
  obtain ⟨answer, t⟩ := out
  cases hsent with
  | closed => exact .inl ⟨_, rfl⟩
  | cut => exact .inl ⟨_, rfl⟩
  | whole => exact .inr h

theorem ends_settle {o : Outcome × Session σ} (h : Inlet.Ends o.2.channel.inlet.incoming)
    (host : Host σ κ) : (settle host o).Ends := by
  rcases o with ⟨_ | _ | _, s⟩
  · simp only [settle]
    split
    · exact .inl ⟨_, rfl⟩
    · exact .inr h
  · exact .inr h
  · exact .inl ⟨_, rfl⟩

/-- Every step ends the run or leaves the ending on the stream. -/
theorem ends_step (h : Step host r next) (hr : r.Ends) : next.Ends := by
  cases h with
  | greet s => exact ends_say (s := s.log .info _) (hr.stream (by simp)) host _
  | @line s via line rest hstate hread =>
      have hrest := RawLine.ends_read via (hr.stream (by simp))
      rw [show RawLine.read via _ = _ from hread] at hrest
      apply ends_settle
      rw [Session.incoming_perform]
      exact hrest
  | @overlong s via rest hstate hread =>
      have hrest := RawLine.ends_read via (hr.stream (by simp))
      rw [show RawLine.read via _ = _ from hread] at hrest
      exact ends_say (s := (s.receiving rest).log .warn _) hrest host _
  | ended => exact .inl ⟨_, rfl⟩
  | failed => exact .inl ⟨_, rfl⟩
  | closed => exact .inl ⟨_, rfl⟩
  | shaken => exact ends_settle (Session.ends_secure host (hr.stream (by simp))) host

/-- A run with an ending before it does not stop short of its own. -/
theorem Stops.ended_of_ends (h : Stops host r) (hr : r.Ends) :
    ∃ result, r.result? = some result := by
  cases h with
  | ended result => exact ⟨result, rfl⟩
  | @waiting s via hstate hread =>
      have hnone := RawLine.ends_read via (hr.stream (by simp))
      rw [show RawLine.read via _ = _ from hread] at hnone
      exact hnone.elim
  | unshaken hwaits =>
      have hnone := Handshake.ends_read (o := {}) (hr.stream (by simp))
      rw [show Handshake.read {} _ = _ from Session.waiting_of_secure hwaits] at hnone
      exact hnone.elim

/-- A run on a stream with an ending comes to a result. -/
theorem result_advance (hr : r.Ends) (host : Host σ κ) :
    ∃ result, (r.advance host).result? = some result := by
  have hends : (r.advance host).Ends := (reaches_advance host r).invariant
    (fun _ _ hstep h => ends_step (step_eq_some_iff.mp hstep) h) hr
  exact (stops_advance host r).ended_of_ends hends

end Run

end FtpControl

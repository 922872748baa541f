import FtpControl.Channel
import FtpControl.Proofs.Session.Answers

/-!
# What a channel writes

A closed channel writes nothing. Any other writes once for every text: all of it when the peer
takes it, and else what stands at the front of it.
-/

namespace FtpControl

/-- Text that gets through in records gets through as a whole. -/
theorem TlsRecord.deliver_of_isSome {room : Nat} {text : List UInt8}
    (h : (deliver room text).2.isSome) : (deliver room text).1 = text := by
  fun_induction deliver with
  | case1 => rfl
  | case2 room text hne part hfit more left hd ih =>
      have hmore : more = text.drop textLimit := by
        rw [hd] at ih
        exact ih h
      show part ++ more = text
      rw [hmore]
      exact List.take_append_drop textLimit text
  | case3 => simp at h

namespace Outlet

/-- Whether the peer takes all of some bytes. -/
def Takes (via : Protection) (bytes : List UInt8) (o : Outlet) : Prop :=
  (o.send via bytes).2.1 = .ok ()

/-- Bytes that the peer takes are delivered as they are. -/
theorem Takes.delivered_eq {o : Outlet} {via : Protection} {bytes : List UInt8}
    (h : o.Takes via bytes) : (o.send via bytes).1 = bytes := by
  unfold Takes send at h
  unfold send
  by_cases hs : o.stuck = true
  · simp [hs] at h
  · simp only [hs, Bool.false_eq_true, if_false] at h ⊢
    cases hr : o.room with
    | none => rfl
    | some n =>
        cases via with
        | clear =>
            by_cases hn : bytes.length ≤ n
            · simp [hn]
            · simp [hr, hn] at h
        | tls =>
            simp only [hr] at h ⊢
            split at h
            · next delivered left hd =>
                have hsome : (TlsRecord.deliver n bytes).2.isSome := by rw [hd]; rfl
                have hall := TlsRecord.deliver_of_isSome hsome
                rwa [hd] at hall
            · simp at h

end Outlet

namespace Channel

variable {σ : Type} {c : Channel} {via : Protection}

theorem send_closed (h : c.state = .closed) (text : String) (l : Ledger σ) :
    c.send text l = (.error .channelClosed, c, l) := by
  simp [send, h]

/-- The log records of a text that was sent. -/
def logSent (text : String) (l : Ledger σ) : Ledger σ :=
  (Text.lines text).foldl (fun l line => l.log .trace ("<<< " ++ line)) l

@[simp] theorem written_logSent (text : String) (l : Ledger σ) :
    (logSent text l).written = l.written := by
  unfold logSent
  induction Text.lines text generalizing l with
  | nil => rfl
  | cons line lines ih => rw [List.foldl_cons, ih, Ledger.written_log]

@[simp] theorem store_logSent (text : String) (l : Ledger σ) :
    (logSent text l).store = l.store := by
  unfold logSent
  induction Text.lines text generalizing l with
  | nil => rfl
  | cons line lines ih =>
      rw [List.foldl_cons, ih]
      rfl

theorem send_ok (h : c.state = .live via) {text : String}
    (hok : c.outlet.Takes via (Text.bytes text)) (l : Ledger σ) :
    c.send text l =
      (.ok (), { c with outlet := (c.outlet.send via (Text.bytes text)).2.2 },
        logSent text (l.note (.wrote via (Text.bytes text)))) := by
  have hd := hok.delivered_eq
  rw [Outlet.Takes] at hok
  simp only [send, h]
  split
  · next fault hf => simp [hok] at hf
  · rw [hd]
    rfl

theorem send_error (h : c.state = .live via) {text : String} {fault : IoFault}
    (herr : (c.outlet.send via (Text.bytes text)).2.1 = .error fault) (l : Ledger σ) :
    c.send text l =
      (.error fault.toFailure, { c with outlet := (c.outlet.send via (Text.bytes text)).2.2 },
        l.note (.wrote via (c.outlet.send via (Text.bytes text)).1)) := by
  simp only [send, h]
  split
  · next f hf =>
      rw [herr] at hf
      cases hf
      rfl
  · next hf => simp [herr] at hf

/-! ## Handshakes -/

/-- The channel that was given up after some bytes. -/
def givenUp (bytes : List UInt8) (c : Channel) : Channel :=
  ⟨⟨[], c.inlet.incoming⟩, (c.outlet.send .clear bytes).2.2.renewed, .closed⟩

/-- Whether a handshake comes to a good end: the client does its part of it, and takes the
server's. -/
structure Shakes (c : Channel) : Prop where
  client : ∃ rest, Handshake.ofStream c.inlet.incoming = .done rest
  server : (c.outlet.spend Handshake.serverSize).isSome

end Channel

end FtpControl

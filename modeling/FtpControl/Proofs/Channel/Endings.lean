import FtpControl.Channel.Handshake
import FtpControl.Proofs.Channel.Framing

/-!
# Streams with an ending

A reader of a stream that ends somewhere is never kept waiting: it is given something at every
read, and what it leaves of the stream still has the ending in it.
-/

namespace FtpControl

/-- Whether nothing is read beyond an arrival. -/
def Arrival.IsLast : Arrival → Prop
  | .finish _ => True
  | .fault f => f.kind ≠ .interrupted ∧ f.kind ≠ .wouldBlock
  | _ => False

namespace Inlet

/-- Whether a stream has an ending. -/
def Ends (incoming : List Arrival) : Prop := ∃ a ∈ incoming, a.IsLast

theorem ends_cons_iff {a : Arrival} {more : List Arrival} :
    Ends (a :: more) ↔ a.IsLast ∨ Ends more := by
  simp [Ends]

theorem Ends.putBack {more : List Arrival} (h : Ends more) (via : Protection)
    (data : List UInt8) : Ends (putBack via data more) := by
  cases data with
  | nil => exact h
  | cons b data => exact ends_cons_iff.mpr (.inr h)

end Inlet

/-- Whether a pull gives something and leaves a stream that has an ending. -/
def Pull.Ends : Pull → Prop
  | .byte _ rest => Inlet.Ends rest.incoming
  | .waiting => False
  | _ => True

namespace Inlet

variable {via : Protection} {i : Inlet}

/-- A fault that is passed over is no ending. -/
theorem not_isLast_of_isPassing {f : IoFault} (h : isPassing via f = true) :
    ¬ Arrival.IsLast (.fault f) := by
  simp only [isPassing, Bool.or_eq_true, Bool.and_eq_true, decide_eq_true_eq] at h
  rintro ⟨hinterrupted, hblocked⟩
  rcases h with h | ⟨-, h⟩
  · exact hinterrupted h
  · exact hblocked h

theorem ends_stray {whole : List Arrival} {seen : List UInt8} {incoming : List Arrival}
    (h : Ends incoming) : (stray via whole seen incoming).Ends := by
  fun_induction stray with
  | case1 => simp [Ends] at h
  | case2 seen v data more hpending ih => exact ih ((ends_cons_iff.mp h).resolve_left id)
  | case5 seen f more hpass ih =>
      exact ih ((ends_cons_iff.mp h).resolve_left (not_isLast_of_isPassing hpass))
  | _ => trivial

theorem ends_refill {incoming : List Arrival} (h : Ends incoming) :
    (refill via incoming).Ends := by
  fun_induction refill with
  | case1 => simp [Ends] at h
  | case2 v more ih => exact ih ((ends_cons_iff.mp h).resolve_left id)
  | case3 b data more => exact ((ends_cons_iff.mp h).resolve_left id).putBack _ _
  | case4 v b data more hv => exact ends_stray h
  | case6 f more hpass ih =>
      exact ih ((ends_cons_iff.mp h).resolve_left (not_isLast_of_isPassing hpass))
  | _ => trivial

theorem ends_next (via : Protection) (h : Ends i.incoming) : (i.next via).Ends := by
  obtain ⟨held, incoming⟩ := i
  cases held with
  | nil => exact ends_refill h
  | cons b held => exact h

end Inlet

namespace RawLine

variable {via : Protection} {i : Inlet}

/-- Whether a bounded read gives something and leaves a stream that has an ending. -/
def Stretch.Ends : Stretch → Prop
  | .taken _ rest => Inlet.Ends rest.incoming
  | .failed _ _ => True
  | .waiting => False

theorem Stretch.Ends.prepend {s : Stretch} (h : s.Ends) (b : UInt8) : (s.prepend b).Ends := by
  cases s with
  | taken => exact h
  | failed => trivial
  | waiting => exact h

theorem ends_stretch (via : Protection) (h : Inlet.Ends i.incoming) (n : Nat) :
    (stretch via n i).Ends := by
  induction n generalizing i with
  | zero => exact h
  | succ n ih =>
      have hnext := Inlet.ends_next via h
      rw [stretch]
      generalize i.next via = pull at hnext
      cases pull with
      | byte b rest =>
          simp only
          split
          · exact hnext
          · exact (ih hnext).prepend b
      | ended => exact h
      | failed => trivial
      | waiting => exact hnext

theorem ends_discard (via : Protection) (h : Inlet.Ends i.incoming) : (discard via i).Ends := by
  fun_induction discard with
  | case1 i rest hb =>
      have hnext := Inlet.ends_next via h
      rwa [hb] at hnext
  | case2 i b rest hb _ _ ih =>
      have hnext := Inlet.ends_next via h
      rw [hb] at hnext
      exact ih hnext
  | case3 => exact h
  | case4 => trivial
  | case5 i hwaits =>
      have hnext := Inlet.ends_next via h
      rwa [hwaits] at hnext

/-- Whether a read gives something and leaves a stream that has an ending. -/
def Ends : RawLine → Prop
  | .line _ rest => Inlet.Ends rest.incoming
  | .overlong rest => Inlet.Ends rest.incoming
  | .waiting => False
  | _ => True

theorem ends_read (via : Protection) (h : Inlet.Ends i.incoming) : (read via i).Ends := by
  have hstretch := ends_stretch via h limit
  rw [read]
  generalize stretch via limit i = s at hstretch
  cases s with
  | taken bytes rest =>
      cases bytes with
      | nil => trivial
      | cons b bytes =>
          simp only
          split
          · have hdropped := ends_discard via (i := rest) hstretch
            generalize discard via rest = s at hdropped
            cases s <;> exact hdropped
          · exact hstretch
  | failed => trivial
  | waiting => exact hstretch

end RawLine

namespace Handshake

/-- Whether a handshake comes to something and leaves a stream that has an ending. -/
def Ends : Handshake → Prop
  | .done rest => Inlet.Ends rest
  | .failed _ => True
  | .waiting => False

theorem ends_read {o : Opening} {incoming : List Arrival} (h : Inlet.Ends incoming) :
    (read o incoming).Ends := by
  fun_induction read with
  | case1 => simp [Inlet.Ends] at h
  | case3 o via data more next htake ih =>
      exact ih ((Inlet.ends_cons_iff.mp h).resolve_left id)
  | case4 o more hclear => exact (Inlet.ends_cons_iff.mp h).resolve_left id
  | case6 o more hclear next htake ih =>
      exact ih ((Inlet.ends_cons_iff.mp h).resolve_left id)
  | case7 o f more hpass ih =>
      exact ih ((Inlet.ends_cons_iff.mp h).resolve_left fun hlast => hlast.2 hpass)
  | _ => trivial

end Handshake

end FtpControl

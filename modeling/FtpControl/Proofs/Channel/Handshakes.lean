import FtpControl.Channel.Handshake
import FtpControl.Proofs.Channel.LetterCase

/-!
# What a handshake reads

A handshake reads a stream up to the arrival that decides it, and nothing that follows makes a
difference to it. Handshakes that read the same on two streams come to the same: they fail for the
same cause, both wait, or leave to each session what follows on its own stream.
-/

namespace FtpControl

/-! ## Lines before a handshake -/

namespace RawLine

variable {via : Protection} {i rest : Inlet} {bytes : List UInt8} {P : Inlet → Prop}
  (hkeep : ∀ {i b rest}, i.next via = .byte b rest → P i → P rest)
include hkeep

/-- What holds from byte to byte holds after every bounded read. -/
theorem kept_of_stretch {n : Nat} (h : stretch via n i = .taken bytes rest) (hi : P i) :
    P rest := by
  induction n generalizing i bytes with
  | zero =>
      obtain ⟨-, rfl⟩ := Stretch.taken.inj h
      exact hi
  | succ n ih =>
      rw [stretch] at h
      split at h
      · next b r hb =>
          split at h
          · obtain ⟨-, rfl⟩ := Stretch.taken.inj h
            exact hkeep hb hi
          · cases hs : stretch via n r with
            | taken bs r' =>
                rw [hs] at h
                obtain ⟨-, rfl⟩ := Stretch.taken.inj h
                exact ih hs (hkeep hb hi)
            | failed => simp [hs, Stretch.prepend] at h
            | waiting => simp [hs, Stretch.prepend] at h
      · obtain ⟨-, rfl⟩ := Stretch.taken.inj h
        exact hi
      · cases h
      · cases h

theorem kept_of_discard (h : discard via i = .taken bytes rest) (hi : P i) : P rest := by
  fun_induction discard with
  | case1 i r hb =>
      obtain ⟨-, rfl⟩ := Stretch.taken.inj h
      exact hkeep hb hi
  | case2 i b r hb _ _ ih => exact ih h (hkeep hb hi)
  | case3 =>
      obtain ⟨-, rfl⟩ := Stretch.taken.inj h
      exact hi
  | _ => cases h

/-- What holds from byte to byte holds from line to line. -/
theorem kept_of_read (h : (∃ bytes, read via i = .line bytes rest) ∨ read via i = .overlong rest)
    (hi : P i) : P rest := by
  rw [read] at h
  cases hs : stretch via limit i with
  | failed => simp [hs] at h
  | waiting => simp [hs] at h
  | taken taken r =>
      have hr := kept_of_stretch hkeep hs hi
      cases taken with
      | nil => simp [hs] at h
      | cons b taken =>
          by_cases hcut : isCutShort (b :: taken) = true
          · cases hd : discard via r with
            | taken bs r' =>
                obtain rfl : r' = rest := by simpa [hs, hcut, hd] using h
                exact kept_of_discard hkeep hd hr
            | failed => simp [hs, hcut, hd] at h
            | waiting => simp [hs, hcut, hd] at h
          · obtain rfl : r = rest := by simpa [hs, hcut] using h
            exact hr

end RawLine

/-- Lines are read from what is held when a handshake is next on the stream. -/
theorem Inlet.incoming_of_next {via : Protection} {i rest : Inlet} {b : UInt8} {more : List Arrival}
    (hnext : i.next via = .byte b rest) (h : i.incoming = .handshake :: more) :
    rest.incoming = .handshake :: more := by
  obtain ⟨held, incoming⟩ := i
  obtain rfl : incoming = .handshake :: more := h
  cases held with
  | nil => cases hnext
  | cons c held =>
      obtain ⟨-, rfl⟩ := Pull.byte.inj hnext
      rfl

/-! ## What decides a handshake -/

namespace Handshake

open Inlet (StreamMatches)

/-- What was read of an opening after an arrival with which a handshake goes on. -/
def goOn? (opening : Opening) : Arrival → Option Opening
  | .bytes via data => opening.take (Inlet.onStream via data)
  | .handshake => if opening.isClear then none else opening.take Opening.hello
  | .fault f => if f.kind = .wouldBlock then some opening else none
  | .finish _ => none

/-- What a handshake reads of a stream, after what was read of its opening: all arrivals up to the
one that decides it, or all there are. -/
def taken (opening : Opening) : List Arrival → List Arrival
  | [] => []
  | a :: more =>
      match goOn? opening a with
      | some opening => a :: taken opening more
      | none => [a]

variable {opening next : Opening} {a : Arrival}

theorem read_of_goOn (h : goOn? opening a = some next) (more : List Arrival) :
    read opening (a :: more) = read next more := by
  cases a with
  | bytes via data =>
      have htake : opening.take (Inlet.onStream via data) = some next := h
      rw [read, htake]
  | handshake =>
      by_cases hclear : opening.isClear = true
      · simp [goOn?, hclear] at h
      · have htake : opening.take Opening.hello = some next := by simpa [goOn?, hclear] using h
        rw [read, if_neg hclear, htake]
  | fault f =>
      by_cases hpass : f.kind = .wouldBlock
      · obtain rfl : opening = next := by simpa [goOn?, hpass] using h
        rw [read, if_pos hpass]
      · simp [goOn?, hpass] at h
  | finish announced => cases h

/-- An arrival that decides a handshake either ends it well, or spoils it whatever follows. -/
theorem read_of_decided (h : goOn? opening a = none) :
    (a = .handshake ∧ ∀ more, read opening (a :: more) = done more) ∨
      ∃ fault, ∀ more, read opening (a :: more) = failed fault := by
  cases a with
  | bytes via data =>
      have htake : opening.take (Inlet.onStream via data) = none := h
      exact .inr ⟨.spoiled opening (Inlet.onStream via data), fun more => by rw [read, htake]⟩
  | handshake =>
      by_cases hclear : opening.isClear = true
      · exact .inl ⟨rfl, fun more => by rw [read, if_pos hclear]⟩
      · have htake : opening.take Opening.hello = none := by simpa [goOn?, hclear] using h
        exact .inr ⟨.spoiled opening Opening.hello, fun more => by
          rw [read, if_neg hclear, htake]⟩
  | fault f =>
      by_cases hpass : f.kind = .wouldBlock
      · simp [goOn?, hpass] at h
      · exact .inr ⟨.broken f, fun more => by rw [read, if_neg hpass]⟩
  | finish announced => exact .inr ⟨.ended, fun more => by rw [read]⟩

/-- What a handshake reads decides it: whatever follows, it leaves that behind or fails for the same
cause. Where nothing is decided, it has read all there is, and waits. -/
theorem decided_by_taken (opening : Opening) (incoming : List Arrival) :
    ∃ rest, incoming = taken opening incoming ++ rest ∧
      ((∀ after, read opening (taken opening incoming ++ after) = done after) ∨
        (∃ fault, ∀ after, read opening (taken opening incoming ++ after) = failed fault) ∨
          rest = [] ∧ read opening incoming = waiting) := by
  induction incoming generalizing opening with
  | nil => exact ⟨[], rfl, .inr (.inr ⟨rfl, rfl⟩)⟩
  | cons a more ih =>
      rw [taken]
      cases hnext : goOn? opening a with
      | some next =>
          simp only [List.cons_append, read_of_goOn hnext, List.cons.injEq, true_and]
          exact ih next
      | none =>
          refine ⟨more, rfl, ?_⟩
          obtain ⟨-, hdone⟩ | ⟨fault, hfails⟩ := read_of_decided hnext
          · exact .inl hdone
          · exact .inr (.inl ⟨fault, hfails⟩)

/-- Handshakes that read the same begin with the same arrival, and go on alike after it. -/
theorem eq_of_taken_eq {b : Arrival} {more others : List Arrival}
    (h : taken opening (a :: more) = taken opening (b :: others)) :
    a = b ∧ ∀ {next}, goOn? opening a = some next → taken next more = taken next others := by
  have hhead : a = b := by
    rw [taken, taken] at h
    cases ha : goOn? opening a <;> cases hb : goOn? opening b <;>
      simp only [ha, hb, List.cons.injEq] at h <;> exact h.1
  subst hhead
  refine ⟨rfl, fun hnext => ?_⟩
  simpa only [taken, hnext, List.cons.injEq, true_and] using h

/-- Whether two handshakes come to the same: what follows them is alike, or they fail for the same
cause, or both wait. -/
inductive Alike : Handshake → Handshake → Prop where
  | done {rest rest'} (h : Inlet.Alike .tls ⟨[], rest⟩ ⟨[], rest'⟩) :
      Alike (.done rest) (.done rest')
  | failed (fault : HandshakeFault) : Alike (.failed fault) (.failed fault)
  | waiting : Alike .waiting .waiting

/-- Handshakes that read the same on streams that are alike come to the same. -/
theorem read_alike {via : Protection} {incoming others : List Arrival}
    (hstreams : StreamMatches via incoming others)
    (hsame : taken opening incoming = taken opening others) :
    (read opening incoming).Alike (read opening others) := by
  induction hstreams generalizing opening with
  | nil => exact .waiting
  | cons ha _ ih =>
      obtain ⟨rfl, hrest⟩ := eq_of_taken_eq hsame
      cases hnext : goOn? opening _ with
      | some next =>
          rw [read_of_goOn hnext, read_of_goOn hnext]
          exact ih (hrest hnext)
      | none =>
          obtain ⟨rfl, -⟩ | ⟨fault, hfails⟩ := read_of_decided hnext
          · cases ha
          · rw [hfails, hfails]
            exact .failed fault
  | handshake hlines hmore ih =>
      obtain ⟨-, hrest⟩ := eq_of_taken_eq hsame
      cases hnext : goOn? opening .handshake with
      | some next =>
          rw [read_of_goOn hnext, read_of_goOn hnext]
          exact ih (hrest hnext)
      | none =>
          obtain ⟨-, hdone⟩ | ⟨fault, hfails⟩ := read_of_decided hnext
          · rw [hdone, hdone]
            exact .done (Inlet.alike_of_framed ⟨.nil, hmore⟩ hlines)
          · rw [hfails, hfails]
            exact .failed fault

end Handshake

end FtpControl

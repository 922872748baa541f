import FtpControl.Channel.Handshake
import FtpControl.Channel.RawLine

/-!
# Where consumed bytes come from

A reader consumes the bytes held, and then those of the stream that travel under the protection of
its channel, in their order. Bytes of the other kind and those of a handshake are never consumed.
-/

namespace FtpControl

/-- The bytes of an arrival that travel under a protection. -/
def Arrival.payload (via : Protection) : Arrival → List UInt8
  | .bytes v data => if v = via then data else []
  | _ => []

namespace Inlet

/-- The bytes of a stream that travel under a protection. -/
def payload (via : Protection) (incoming : List Arrival) : List UInt8 :=
  incoming.flatMap (Arrival.payload via)

@[simp] theorem payload_append (via : Protection) (incoming more : List Arrival) :
    payload via (incoming ++ more) = payload via incoming ++ payload via more := by
  simp [payload]

theorem payload_bytes (via : Protection) (data : List UInt8) (more : List Arrival) :
    payload via (.bytes via data :: more) = data ++ payload via more := by
  simp [payload, Arrival.payload]

theorem payload_putBack (via : Protection) (data : List UInt8) (more : List Arrival) :
    payload via (putBack via data more) = data ++ payload via more := by
  cases data with
  | nil => rfl
  | cons b data => exact payload_bytes via (b :: data) more

/-- The bytes that a reader may consume. -/
def readable (via : Protection) (i : Inlet) : List UInt8 := i.held ++ payload via i.incoming

/-- The bytes of a stream that travel under TLS once the handshake is over. -/
def afterHandshake (incoming : List Arrival) : List UInt8 :=
  match Handshake.ofStream incoming with
  | .done rest => payload .tls rest
  | _ => []

theorem readable_of_refill {via : Protection} {incoming : List Arrival} {b : UInt8}
    {rest : Inlet} (h : refill via incoming = .byte b rest) :
    payload via incoming = b :: rest.readable via := by
  fun_induction refill with
  | case1 => simp at h
  | case2 v more ih =>
      rw [← ih h]
      simp [payload, Arrival.payload]
  | case3 c data more =>
      simp only [Pull.byte.injEq] at h
      obtain ⟨rfl, rfl⟩ := h
      rw [payload_bytes, readable, payload_putBack, ← List.append_assoc, List.take_append_drop]
      rfl
  | case4 => exact absurd h (stray_ne_byte _ _ _ _ _ _)
  | case6 f more hf ih => exact ih h
  | _ => simp at h

theorem readable_of_next {via : Protection} {i rest : Inlet} {b : UInt8}
    (h : i.next via = .byte b rest) : i.readable via = b :: rest.readable via := by
  obtain ⟨held, incoming⟩ := i
  cases held with
  | nil => exact readable_of_refill h
  | cons c held =>
      simp only [next, Pull.byte.injEq] at h
      obtain ⟨rfl, rfl⟩ := h
      rfl

end Inlet

namespace RawLine

variable {via : Protection} {i rest : Inlet} {bytes : List UInt8}

theorem readable_of_stretch {n : Nat} (h : stretch via n i = .taken bytes rest) :
    i.readable via = bytes ++ rest.readable via := by
  induction n generalizing i bytes with
  | zero =>
      simp only [stretch, Stretch.taken.injEq] at h
      obtain ⟨rfl, rfl⟩ := h
      rfl
  | succ n ih =>
      rw [stretch] at h
      split at h
      · next b r hb =>
          rw [Inlet.readable_of_next hb]
          split at h
          · simp only [Stretch.taken.injEq] at h
            obtain ⟨rfl, rfl⟩ := h
            rfl
          · cases hs : stretch via n r with
            | taken bs r' =>
                rw [hs] at h
                simp only [Stretch.prepend, Stretch.taken.injEq] at h
                obtain ⟨rfl, rfl⟩ := h
                rw [ih hs, List.cons_append]
            | failed => simp [hs, Stretch.prepend] at h
            | waiting => simp [hs, Stretch.prepend] at h
      · simp only [Stretch.taken.injEq] at h
        obtain ⟨rfl, rfl⟩ := h
        rfl
      · simp at h
      · simp at h

/-- Dropping bytes leaves the end of what may be consumed. -/
theorem readable_of_discard (h : discard via i = .taken bytes rest) :
    rest.readable via <:+ i.readable via := by
  fun_induction discard with
  | case1 i r hb =>
      simp only [Stretch.taken.injEq] at h
      obtain ⟨-, rfl⟩ := h
      rw [Inlet.readable_of_next hb]
      exact List.suffix_cons _ _
  | case2 i b r hb _ _ ih =>
      rw [Inlet.readable_of_next hb]
      exact (ih h).trans (List.suffix_cons _ _)
  | case3 =>
      simp only [Stretch.taken.injEq] at h
      obtain ⟨-, rfl⟩ := h
      exact List.suffix_rfl
  | _ => simp at h

/-- A line is the front of what may be consumed. -/
theorem readable_of_line (h : read via i = .line bytes rest) :
    i.readable via = bytes ++ rest.readable via := by
  unfold read at h
  split at h
  · simp at h
  · simp at h
  · simp at h
  · next b bs r hs =>
      split at h
      · split at h <;> simp at h
      · simp only [line.injEq] at h
        obtain ⟨rfl, rfl⟩ := h
        exact readable_of_stretch hs

theorem readable_of_overlong (h : read via i = .overlong rest) :
    rest.readable via <:+ i.readable via := by
  unfold read at h
  split at h
  · simp at h
  · simp at h
  · simp at h
  · next b bs r hs =>
      split at h
      · split at h
        · next bs' r' hd =>
            simp only [overlong.injEq] at h
            subst h
            rw [readable_of_stretch hs]
            exact (readable_of_discard hd).trans (List.suffix_append _ _)
        · simp at h
        · simp at h
      · simp at h

end RawLine

namespace Handshake

theorem read_append_of_done {opening : Opening} {incoming rest : List Arrival}
    (h : read opening incoming = done rest) (more : List Arrival) :
    read opening (incoming ++ more) = done (rest ++ more) := by
  fun_induction read with
  | case3 opening v data after next ho ih => simpa [read, ho] using ih h
  | case4 opening after hc =>
      simp only [done.injEq] at h
      subst h
      simp [read, hc]
  | case6 opening after hc next ho ih => simpa [read, hc, ho] using ih h
  | case7 opening f after hf ih => simpa [read, hf] using ih h
  | _ => simp at h

/-- What comes after a handshake does not matter to it. -/
theorem ofStream_append_of_done {incoming rest : List Arrival}
    (h : ofStream incoming = done rest) (more : List Arrival) :
    ofStream (incoming ++ more) = done (rest ++ more) :=
  read_append_of_done h more

end Handshake

end FtpControl

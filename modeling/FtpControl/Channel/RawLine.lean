import FtpControl.Channel.Inlet

/-!
# Lines as they arrive

A line ends with a line feed, and has at most `RawLine.limit` bytes with it. A longer one is
dropped up to its line feed and reported as overlong; what follows it is read as usual. At the end
of the stream, bytes without a line feed are a line too, unless they reach the limit.
-/

namespace FtpControl

/-- What reading a line gives. -/
inductive RawLine where
  /-- The bytes of a line, with its line feed if it has one. -/
  | line (bytes : List UInt8) (rest : Inlet)
  | overlong (rest : Inlet)
  | ended
  | failed (fault : IoFault) (rest : Inlet)
  | waiting
  deriving DecidableEq, Repr

namespace RawLine

/-- The most bytes in a line, its line feed included. -/
def limit : Nat := 4096

def lineFeed : UInt8 := 0x0A

/-! ## Bounded reads -/

/-- What a bounded read gives. -/
inductive Stretch where
  | taken (bytes : List UInt8) (rest : Inlet)
  | failed (fault : IoFault) (rest : Inlet)
  | waiting
  deriving DecidableEq, Repr

/-- A byte in front of what was taken. -/
def Stretch.prepend (b : UInt8) : Stretch → Stretch
  | taken bytes rest => taken (b :: bytes) rest
  | failed fault rest => failed fault rest
  | waiting => waiting

/-- Takes bytes up to a line feed, the end of the stream, or a number of bytes. -/
def stretch (via : Protection) : Nat → Inlet → Stretch
  | 0, i => .taken [] i
  | n + 1, i =>
      match i.next via with
      | .byte b rest =>
          if b = lineFeed then .taken [b] rest else (stretch via n rest).prepend b
      | .ended => .taken [] i
      | .failed fault rest => .failed fault rest
      | .waiting => .waiting

theorem weight_of_stretch {via : Protection} {n : Nat} {i rest : Inlet} {bytes : List UInt8}
    (h : stretch via n i = .taken bytes rest) : rest.weight + bytes.length ≤ i.weight := by
  induction n generalizing i bytes with
  | zero =>
      simp only [stretch, Stretch.taken.injEq] at h
      obtain ⟨rfl, rfl⟩ := h
      simp
  | succ n ih =>
      rw [stretch] at h
      split at h
      · next b r hb =>
          have hlt := Inlet.weight_lt_of_next hb
          split at h
          · simp only [Stretch.taken.injEq] at h
            obtain ⟨rfl, rfl⟩ := h
            simp only [List.length_singleton]
            omega
          · cases hs : stretch via n r with
            | taken bs r' =>
                rw [hs] at h
                simp only [Stretch.prepend, Stretch.taken.injEq] at h
                obtain ⟨rfl, rfl⟩ := h
                have := ih hs
                simp only [List.length_cons]
                omega
            | failed => simp [hs, Stretch.prepend] at h
            | waiting => simp [hs, Stretch.prepend] at h
      · simp only [Stretch.taken.injEq] at h
        obtain ⟨rfl, rfl⟩ := h
        simp
      · simp at h
      · simp at h

/-! ## Dropping a line -/

/-- Drops bytes up to and with the next line feed, or to the end of the stream. -/
def discard (via : Protection) (i : Inlet) : Stretch :=
  match h : i.next via with
  | .byte b rest =>
      if b = lineFeed then .taken [] rest
      else
        have : rest.weight < i.weight := Inlet.weight_lt_of_next h
        discard via rest
  | .ended => .taken [] i
  | .failed fault rest => .failed fault rest
  | .waiting => .waiting
termination_by i.weight

theorem weight_of_discard {via : Protection} {i rest : Inlet} {bytes : List UInt8}
    (h : discard via i = .taken bytes rest) : rest.weight ≤ i.weight := by
  fun_induction discard with
  | case1 i r hb =>
      have := Inlet.weight_lt_of_next hb
      simp only [Stretch.taken.injEq] at h
      obtain ⟨-, rfl⟩ := h
      omega
  | case2 i b r _ _ hlt ih =>
      have := ih h
      omega
  | case3 =>
      simp only [Stretch.taken.injEq] at h
      obtain ⟨-, rfl⟩ := h
      omega
  | _ => simp at h

/-! ## Reading a line -/

/-- Whether bytes that were taken up to the limit are only the beginning of a line. -/
def isCutShort (bytes : List UInt8) : Bool :=
  bytes.length = limit && bytes.getLast? != some lineFeed

def read (via : Protection) (i : Inlet) : RawLine :=
  match stretch via limit i with
  | .waiting => .waiting
  | .failed fault rest => .failed fault rest
  | .taken [] _ => .ended
  | .taken (b :: bytes) rest =>
      if isCutShort (b :: bytes) then
        match discard via rest with
        | .taken _ rest => .overlong rest
        | .failed fault rest => .failed fault rest
        | .waiting => .waiting
      else .line (b :: bytes) rest

/-- A line read makes the receiving side lighter. -/
theorem weight_lt_of_line {via : Protection} {i rest : Inlet} {bytes : List UInt8}
    (h : read via i = .line bytes rest) : rest.weight < i.weight := by
  unfold read at h
  split at h
  · simp at h
  · simp at h
  · simp at h
  · next b bs r hs =>
      have hw := weight_of_stretch hs
      simp only [List.length_cons] at hw
      split at h
      · split at h <;> simp at h
      · simp only [line.injEq] at h
        obtain ⟨-, rfl⟩ := h
        omega

/-- A line dropped makes the receiving side lighter. -/
theorem weight_lt_of_overlong {via : Protection} {i rest : Inlet}
    (h : read via i = .overlong rest) : rest.weight < i.weight := by
  unfold read at h
  split at h
  · simp at h
  · simp at h
  · simp at h
  · next b bs r hs =>
      have hw := weight_of_stretch hs
      simp only [List.length_cons] at hw
      split at h
      · split at h
        · next bs' r' hd =>
            have := weight_of_discard hd
            simp only [overlong.injEq] at h
            subst h
            omega
        · simp at h
        · simp at h
      · simp at h

end RawLine

end FtpControl

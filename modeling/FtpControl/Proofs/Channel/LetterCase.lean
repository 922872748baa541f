import FtpControl.Proofs.Channel.Framing
import FtpControl.Proofs.Text.LetterCase

/-!
# Streams in another case

Streams that are cut at the same places, and whose bytes are the same but for the case of letters,
are read in step: what is taken from both is the same but for the case of letters, both fail alike,
and what is left of them is again alike.
-/

namespace FtpControl

open Text (SameLetters SameRequest upperByte)

/-! ## Streams -/

/-- Whether a reader of lines is to be given lines that ask for the same. -/
inductive Framed.Alike : Framed → Framed → Prop where
  | line {p q} (h : SameRequest p q) : Alike (.line p) (.line q)
  | overlong : Alike .overlong .overlong

/-- Whether two arrivals are the same but for the case of letters. Bytes that are not protected as
the channel demands are no text, and the same altogether. -/
inductive Arrival.Matches (via : Protection) : Arrival → Arrival → Prop where
  | bytes {data other} (h : SameLetters data other) :
      Matches via (.bytes via data) (.bytes via other)
  | stray {v} (hv : v ≠ via) (data : List UInt8) : Matches via (.bytes v data) (.bytes v data)
  | fault (f : IoFault) : Matches via (.fault f) (.fault f)
  | finish (announced : Bool) : Matches via (.finish announced) (.finish announced)

namespace Inlet

/-- The lines that a reader is to be given. -/
def framed (via : Protection) (i : Inlet) : List Framed :=
  Framed.ofFlow (i.flow via).1 (i.flow via).2

/-- Whether two streams are cut at the same places, with bytes between that are the same but for
the case of letters. After a handshake the bytes under TLS are, and their lines ask for the same. -/
inductive StreamMatches : Protection → List Arrival → List Arrival → Prop where
  | nil (via : Protection) : StreamMatches via [] []
  | cons {via a b more others} (ha : a.Matches via b) (h : StreamMatches via more others) :
      StreamMatches via (a :: more) (b :: others)
  | handshake {via more others}
      (hlines : List.Forall₂ Framed.Alike (framed .tls ⟨[], more⟩) (framed .tls ⟨[], others⟩))
      (h : StreamMatches .tls more others) :
      StreamMatches via (.handshake :: more) (.handshake :: others)

/-- Whether two receiving sides hold and will be given the same but for the case of letters. -/
structure Matches (via : Protection) (i j : Inlet) : Prop where
  held : SameLetters i.held j.held
  incoming : StreamMatches via i.incoming j.incoming

end Inlet

/-- Whether two pulls give bytes that are the same but for the case of letters, or the same
ending. -/
inductive Pull.Matches (via : Protection) : Pull → Pull → Prop where
  | byte {b c i j} (hb : upperByte b = upperByte c) (h : i.Matches via j) :
      Matches via (.byte b i) (.byte c j)
  | ended : Matches via .ended .ended
  | failed (fault : IoFault) (i j : Inlet) : Matches via (.failed fault i) (.failed fault j)
  | waiting : Matches via .waiting .waiting

namespace Inlet

variable {via : Protection}

theorem streamMatches_putBack {data other : List UInt8} {more others : List Arrival}
    (hdata : SameLetters data other) (h : StreamMatches via more others) :
    StreamMatches via (putBack via data more) (putBack via other others) := by
  cases hdata with
  | nil => exact h
  | cons hb hdata => exact .cons (.bytes (.cons hb hdata)) h

/-- Sealed text begins with a whole record. -/
theorem ofBytes_sealed_ne {n : Nat} (h : n ≠ 0) :
    TlsRecord.ofBytes (TlsRecord.sealed n) ≠ .pending := by
  rw [TlsRecord.sealed, if_neg h]
  have hpart : min n TlsRecord.textLimit + TlsRecord.sealSize < 65536 := by
    simp only [TlsRecord.textLimit, TlsRecord.sealSize]
    omega
  generalize min n TlsRecord.textLimit + TlsRecord.sealSize = part at hpart
  have hlength : (UInt8.ofNat (part / 256)).toNat * 256 + (UInt8.ofNat part).toNat = part := by
    simp only [UInt8.toNat_ofNat']
    omega
  simp only [TlsRecord.ofBytes, List.cons_append, List.nil_append, hlength]
  have hwhole :
      ¬ (List.replicate part 0 ++ TlsRecord.sealed (n - TlsRecord.textLimit)).length < part := by
    rw [List.length_append, List.length_replicate]
    omega
  rw [if_neg hwhole]
  split <;> simp

theorem stray_matches {more others : List Arrival} (h : StreamMatches .tls more others)
    (whole whole' : List Arrival) (seen : List UInt8) :
    (stray .tls whole seen more).Matches .tls (stray .tls whole' seen others) := by
  generalize hvia : Protection.tls = via at h
  induction h generalizing seen with
  | nil => exact .waiting
  | handshake => exact .failed _ _ _
  | @cons via a b more others ha _ ih =>
      subst hvia
      cases ha with
      | @bytes data other hdata =>
          -- Sealed bytes look the same from outside.
          simp only [stray, onStream, hdata.length_eq]
          by_cases hmore : TlsRecord.ofBytes (seen ++ TlsRecord.sealed other.length) = .pending
          · simpa only [hmore, if_true] using ih _ rfl
          · simpa only [hmore, if_false] using .failed _ _ _
      | @stray v _ data =>
          simp only [stray]
          by_cases hmore : TlsRecord.ofBytes (seen ++ onStream v data) = .pending
          · simpa only [hmore, if_true] using ih _ rfl
          · simpa only [hmore, if_false] using .failed _ _ _
      | fault f =>
          simp only [stray]
          by_cases hpass : isPassing .tls f = true
          · simpa only [hpass, if_true] using ih _ rfl
          · simpa only [hpass] using .failed _ _ _
      | finish => exact .failed _ _ _

/-- Taking a block from streams that match gives bytes that match. -/
theorem refill_matches {more others : List Arrival} (h : StreamMatches via more others) :
    (refill via more).Matches via (refill via others) := by
  induction h with
  | nil => exact .waiting
  | handshake => exact .failed _ _ _
  | @cons via a b more others ha hmore ih =>
      cases ha with
      | bytes hdata =>
          cases hdata with
          | nil => exact ih
          | cons hb hdata =>
              simp only [refill, if_true]
              exact .byte hb ⟨List.forall₂_take _ hdata,
                streamMatches_putBack (List.forall₂_drop _ hdata) hmore⟩
      | @stray v hv data =>
          cases data with
          | nil => exact ih
          | cons b data =>
              simp only [refill, if_neg hv]
              cases via with
              | tls => exact stray_matches (.cons (.stray hv _) hmore) _ _ _
              | clear =>
                  -- The first record is whole at once, so nothing else is looked at.
                  have hwhole : TlsRecord.ofBytes (onStream v (b :: data)) ≠ .pending := by
                    cases v with
                    | clear => exact absurd rfl hv
                    | tls => exact ofBytes_sealed_ne (by simp)
                  simp only [stray, List.nil_append, if_neg hwhole]
                  exact .failed _ _ _
      | fault f =>
          simp only [refill]
          split
          · exact ih
          · exact .failed _ _ _
      | finish announced =>
          simp only [refill]
          split
          · exact .failed _ _ _
          · exact .ended

theorem next_matches {i j : Inlet} (h : i.Matches via j) :
    (i.next via).Matches via (j.next via) := by
  obtain ⟨held, incoming⟩ := i
  obtain ⟨other, others⟩ := j
  obtain ⟨hheld, hincoming⟩ := h
  cases hheld with
  | nil => exact refill_matches hincoming
  | cons hb hheld => exact .byte hb ⟨hheld, hincoming⟩

end Inlet

/-! ## Lines -/

namespace RawLine

variable {via : Protection}

/-- Whether two bounded reads take bytes that are the same but for the case of letters, or come to
the same. -/
inductive Stretch.Matches (via : Protection) : Stretch → Stretch → Prop where
  | taken {bytes other i j} (hbytes : SameLetters bytes other) (h : i.Matches via j) :
      Matches via (.taken bytes i) (.taken other j)
  | failed (fault : IoFault) (i j : Inlet) : Matches via (.failed fault i) (.failed fault j)
  | waiting : Matches via .waiting .waiting

theorem Stretch.Matches.prepend {s t : Stretch} (h : s.Matches via t) {b c : UInt8}
    (hb : upperByte b = upperByte c) : (s.prepend b).Matches via (t.prepend c) := by
  cases h with
  | taken hbytes h => exact .taken (.cons hb hbytes) h
  | failed => exact .failed _ _ _
  | waiting => exact .waiting

theorem lineFeed_iff {b c : UInt8} (hb : upperByte b = upperByte c) :
    b = lineFeed ↔ c = lineFeed := by
  constructor
  · rintro rfl
    exact Text.eq_of_upperByte (by decide) hb
  · rintro rfl
    exact Text.eq_of_upperByte (by decide) hb.symm

theorem stretch_matches {i j : Inlet} (h : i.Matches via j) (n : Nat) :
    (stretch via n i).Matches via (stretch via n j) := by
  induction n generalizing i j with
  | zero => exact .taken .nil h
  | succ n ih =>
      have hnext := Inlet.next_matches h
      rw [stretch, stretch]
      generalize i.next via = pull, j.next via = other at hnext
      cases hnext with
      | @byte b c rest rest' hb hrest =>
          simp only [lineFeed_iff hb]
          split
          · exact .taken (.cons hb .nil) hrest
          · exact (ih hrest).prepend hb
      | ended => exact .taken .nil h
      | failed => exact .failed _ _ _
      | waiting => exact .waiting

theorem discard_matches {i j : Inlet} (h : i.Matches via j) :
    (discard via i).Matches via (discard via j) := by
  induction hweight : i.weight using Nat.strongRecOn generalizing i j with
  | ind n ih =>
      subst hweight
      have hnext := Inlet.next_matches h
      have hlighter : ∀ b rest, i.next via = .byte b rest → rest.weight < i.weight :=
        fun _ _ => Inlet.weight_lt_of_next
      rw [discard_eq via i, discard_eq via j]
      generalize i.next via = pull, j.next via = other at hnext hlighter
      cases hnext with
      | @byte b c rest rest' hb hrest =>
          simp only [lineFeed_iff hb]
          split
          · exact .taken .nil hrest
          · exact ih _ (hlighter b rest rfl) hrest rfl
      | ended => exact .taken .nil h
      | failed => exact .failed _ _ _
      | waiting => exact .waiting

/-- Whether two reads give lines that are the same but for the case of letters, or come to the
same. -/
inductive Matches (via : Protection) : RawLine → RawLine → Prop where
  | line {p q i j} (hline : SameLetters p q) (h : i.Matches via j) :
      Matches via (.line p i) (.line q j)
  | overlong {i j} (h : i.Matches via j) : Matches via (.overlong i) (.overlong j)
  | ended : Matches via .ended .ended
  | failed (fault : IoFault) (i j : Inlet) : Matches via (.failed fault i) (.failed fault j)
  | waiting : Matches via .waiting .waiting

theorem isCutShort_eq {p q : List UInt8} (h : SameLetters p q) : isCutShort p = isCutShort q := by
  have hlast : p.getLast?.map upperByte = q.getLast?.map upperByte := by
    rw [← List.getLast?_map, h.map_eq, List.getLast?_map]
  have hfeed : p.getLast? = some lineFeed ↔ q.getLast? = some lineFeed := by
    rcases hp : p.getLast? with _ | b <;> rcases hq : q.getLast? with _ | c
    · rfl
    · simp [hp, hq] at hlast
    · simp [hp, hq] at hlast
    · rw [hp, hq, Option.map_some, Option.map_some, Option.some.injEq] at hlast
      rw [Option.some.injEq, Option.some.injEq, lineFeed_iff hlast]
  rw [Bool.eq_iff_iff]
  simp only [isCutShort, h.length_eq, Bool.and_eq_true, bne_iff_ne, ne_eq, hfeed]

theorem read_matches {i j : Inlet} (h : i.Matches via j) :
    (read via i).Matches via (read via j) := by
  have hstretch := stretch_matches h limit
  rw [read, read]
  generalize stretch via limit i = s, stretch via limit j = t at hstretch
  cases hstretch with
  | @taken bytes other rest rest' hbytes hrest =>
      cases hbytes with
      | nil => exact .ended
      | @cons b c bytes other hb hbytes =>
          simp only [isCutShort_eq (.cons hb hbytes)]
          split
          · have hdropped := discard_matches hrest
            generalize discard via rest = s, discard via rest' = t at hdropped
            cases hdropped with
            | taken _ hrest => exact .overlong hrest
            | failed => exact .failed _ _ _
            | waiting => exact .waiting
          · exact .line (.cons hb hbytes) hrest
  | failed => exact .failed _ _ _
  | waiting => exact .waiting

end RawLine

/-! ## Requests -/

/-- Whether two receiving sides give the same but for the case of letters, and lines that ask for
the same. -/
structure Inlet.Alike (via : Protection) (i j : Inlet) : Prop where
  matching : i.Matches via j
  lines : ∃ items others e e', RawLine.Reads via i items e ∧ RawLine.Reads via j others e' ∧
    List.Forall₂ Framed.Alike items others

theorem Inlet.alike_of_framed {via : Protection} {i j : Inlet} (h : i.Matches via j)
    (hlines : List.Forall₂ Framed.Alike (i.framed via) (j.framed via)) : i.Alike via j :=
  ⟨h, _, _, _, _, RawLine.reads_of_flow rfl, RawLine.reads_of_flow rfl, hlines⟩

namespace RawLine

variable {via : Protection} {i rest : Inlet} {items : List Framed} {e : Option StreamEnd}

theorem Reads.of_line {line : List UInt8} (h : Reads via i items e)
    (hread : read via i = .line line rest) :
    ∃ more, items = .line line :: more ∧ Reads via rest more e := by
  cases h with
  | line h hrest =>
      rw [hread, RawLine.line.injEq] at h
      obtain ⟨rfl, rfl⟩ := h
      exact ⟨_, rfl, hrest⟩
  | overlong h => simp [hread] at h
  | ended h => simp [hread] at h
  | failed h => simp [hread] at h
  | waiting h => simp [hread] at h

theorem Reads.of_overlong (h : Reads via i items e) (hread : read via i = .overlong rest) :
    ∃ more, items = .overlong :: more ∧ Reads via rest more e := by
  cases h with
  | overlong h hrest =>
      rw [hread, RawLine.overlong.injEq] at h
      subst h
      exact ⟨_, rfl, hrest⟩
  | line h => simp [hread] at h
  | ended h => simp [hread] at h
  | failed h => simp [hread] at h
  | waiting h => simp [hread] at h

/-- Whether two reads give lines that ask for the same, or come to the same. -/
inductive Alike (via : Protection) : RawLine → RawLine → Prop where
  | line {p q i j} (hline : SameRequest p q) (h : i.Alike via j) :
      Alike via (.line p i) (.line q j)
  | overlong {i j} (h : i.Alike via j) : Alike via (.overlong i) (.overlong j)
  | ended : Alike via .ended .ended
  | failed (fault : IoFault) (i j : Inlet) : Alike via (.failed fault i) (.failed fault j)
  | waiting : Alike via .waiting .waiting

/-- Receiving sides that are alike are read in step, line by line. -/
theorem read_alike {i j : Inlet} (h : i.Alike via j) : (read via i).Alike via (read via j) := by
  obtain ⟨hmatches, items, others, e, e', hreads, hreads', hlines⟩ := h
  have hread := read_matches hmatches
  generalize hi : read via i = raw, hj : read via j = other at hread ⊢
  cases hread with
  | line _ hrest =>
      obtain ⟨more, rfl, hmore⟩ := hreads.of_line hi
      obtain ⟨more', rfl, hmore'⟩ := hreads'.of_line hj
      cases hlines with
      | cons hitem hlines =>
          cases hitem with
          | line hline => exact .line hline ⟨hrest, more, more', e, e', hmore, hmore', hlines⟩
  | overlong hrest =>
      obtain ⟨more, rfl, hmore⟩ := hreads.of_overlong hi
      obtain ⟨more', rfl, hmore'⟩ := hreads'.of_overlong hj
      cases hlines with
      | cons _ hlines => exact .overlong ⟨hrest, more, more', e, e', hmore, hmore', hlines⟩
  | ended => exact .ended
  | failed => exact .failed _ _ _
  | waiting => exact .waiting

end RawLine

end FtpControl

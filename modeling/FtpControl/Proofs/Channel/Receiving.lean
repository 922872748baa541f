import FtpControl.Channel
import FtpControl.Proofs.Channel.Framing

/-!
# Lines that a channel gives

A channel that is asked for lines over and over gives one result for every piece of its stream that
ends in a line feed, in order. Then it tells of the end, again and again, or once of the fault that
it met. The bytes of a line that a fault cut off are gone: what comes after the fault is read as a
stream of its own.
-/

namespace FtpControl

namespace Inlet

/-! ## Streams and what is beyond them -/

/-- A stream of bytes in pieces, with faults among them over which a read goes on. It ends where the
next read finds the end or fails; what is on the stream after that read is beyond. -/
inductive Stream (via : Protection) :
    List Arrival → List UInt8 → StreamEnd → List Arrival → Prop where
  | piece {more bytes last beyond} (data : List UInt8) (h : Stream via more bytes last beyond) :
      Stream via (.bytes via data :: more) (data ++ bytes) last beyond
  | passing {more bytes last beyond f} (hf : isPassing via f = true)
      (h : Stream via more bytes last beyond) : Stream via (.fault f :: more) bytes last beyond
  | ended {incoming} (h : refill via incoming = .ended) : Stream via incoming [] .clean incoming
  | failed {incoming fault rest} (h : refill via incoming = .failed fault rest) :
      Stream via incoming [] (.failed fault) rest.incoming

/-- Whether a receiving side comes to the end of a stream with nothing but `beyond` after it. -/
def LeadsTo (via : Protection) (beyond : List Arrival) (i : Inlet) : Prop :=
  ∃ bytes last, Stream via i.incoming bytes last beyond

variable {via : Protection} {incoming beyond : List Arrival} {bytes : List UInt8}
  {last : StreamEnd} {i : Inlet}

theorem Stream.streamFlow_eq (h : Stream via incoming bytes last beyond) :
    streamFlow via incoming = (bytes, some last) := by
  induction h with
  | piece data h ih => rw [streamFlow_bytes, ih]
  | passing hf h ih => rw [streamFlow_passing hf, ih]
  | ended h => rw [← flow_refill, h, Pull.flow]
  | failed h => rw [← flow_refill, h, Pull.flow]

theorem held_of_stray {whole incoming : List Arrival} {seen : List UInt8} {fault : IoFault}
    {rest : Inlet} (h : stray via whole seen incoming = .failed fault rest) : rest.held = [] := by
  fun_induction stray with
  | case1 => simp at h
  | case2 _ _ _ _ _ ih => exact ih h
  | case5 _ _ _ _ ih => exact ih h
  | _ =>
      obtain ⟨-, rfl⟩ := Pull.failed.inj h
      rfl

/-- A read that fails takes the bytes held with it. -/
theorem held_of_refill {fault : IoFault} {rest : Inlet}
    (h : refill via incoming = .failed fault rest) : rest.held = [] := by
  fun_induction refill with
  | case2 _ _ ih => exact ih h
  | case4 => exact held_of_stray h
  | case5 | case7 | case8 =>
      obtain ⟨-, rfl⟩ := Pull.failed.inj h
      rfl
  | case6 _ _ _ ih => exact ih h
  | _ => simp at h

/-- What a read leaves of a stream: more of it, or what is beyond. -/
theorem Stream.refill_eq (h : Stream via incoming bytes last beyond) :
    (∃ b rest, refill via incoming = .byte b rest ∧ LeadsTo via beyond rest) ∨
      refill via incoming = .ended ∨
      ∃ fault, refill via incoming = .failed fault ⟨[], beyond⟩ := by
  induction h with
  | @piece more bytes last beyond data h ih =>
      cases data with
      | nil => rwa [refill]
      | cons b data =>
          refine .inl ⟨b, _, by rw [refill, if_pos rfl], ?_⟩
          cases hdrop : data.drop (blockSize - 1) with
          | nil => exact ⟨bytes, last, h⟩
          | cons c data => exact ⟨_, last, .piece (c :: data) h⟩
  | passing hf h ih => rwa [refill, if_pos hf]
  | ended h => exact .inr (.inl h)
  | @failed _ fault rest h =>
      obtain ⟨held, incoming⟩ := rest
      obtain rfl : held = [] := held_of_refill h
      exact .inr (.inr ⟨fault, h⟩)

theorem LeadsTo.next_eq (h : LeadsTo via beyond i) :
    (∃ b rest, i.next via = .byte b rest ∧ LeadsTo via beyond rest) ∨
      i.next via = .ended ∨ ∃ fault, i.next via = .failed fault ⟨[], beyond⟩ := by
  obtain ⟨held, incoming⟩ := i
  obtain ⟨bytes, last, hs⟩ := h
  cases held with
  | nil => exact hs.refill_eq
  | cons b held => exact .inl ⟨b, ⟨held, incoming⟩, rfl, bytes, last, hs⟩

end Inlet

namespace RawLine

variable {via : Protection} {beyond : List Arrival} {i : Inlet}

/-- What a bounded read, or the dropping of a line, leaves of a stream. -/
inductive Stretch.Leads (via : Protection) (beyond : List Arrival) : Stretch → Prop where
  | taken {bytes rest} (h : Inlet.LeadsTo via beyond rest) : Leads via beyond (.taken bytes rest)
  | failed {fault} : Leads via beyond (.failed fault ⟨[], beyond⟩)

theorem Stretch.Leads.prepend {s : Stretch} (h : s.Leads via beyond) (b : UInt8) :
    (s.prepend b).Leads via beyond := by
  cases h with
  | taken h => exact .taken h
  | failed => exact .failed

theorem leads_stretch (n : Nat) (h : Inlet.LeadsTo via beyond i) :
    (stretch via n i).Leads via beyond := by
  induction n generalizing i with
  | zero => exact .taken h
  | succ n ih =>
      obtain ⟨b, rest, hnext, hrest⟩ | hnext | ⟨fault, hnext⟩ := h.next_eq
      · rw [stretch, hnext]
        dsimp only
        split
        · exact .taken hrest
        · exact (ih hrest).prepend b
      · rw [stretch, hnext]
        exact .taken h
      · rw [stretch, hnext]
        exact .failed

theorem leads_discard (h : Inlet.LeadsTo via beyond i) : (discard via i).Leads via beyond := by
  induction hw : i.weight using Nat.strongRecOn generalizing i with
  | ind n ih =>
      rw [discard_eq]
      obtain ⟨b, rest, hnext, hrest⟩ | hnext | ⟨fault, hnext⟩ := h.next_eq
      · have hlt : rest.weight < n := hw ▸ Inlet.weight_lt_of_next hnext
        rw [hnext]
        dsimp only
        split
        · exact .taken hrest
        · exact ih _ hlt hrest rfl
      · rw [hnext]
        exact .taken h
      · rw [hnext]
        exact .failed

/-- What reading a line leaves of a stream. -/
inductive Leads (via : Protection) (beyond : List Arrival) : RawLine → Prop where
  | line {bytes rest} (h : Inlet.LeadsTo via beyond rest) : Leads via beyond (.line bytes rest)
  | overlong {rest} (h : Inlet.LeadsTo via beyond rest) : Leads via beyond (.overlong rest)
  | ended : Leads via beyond .ended
  | failed {fault} : Leads via beyond (.failed fault ⟨[], beyond⟩)

theorem leads_read (h : Inlet.LeadsTo via beyond i) : (read via i).Leads via beyond := by
  unfold read
  cases hs : stretch via limit i with
  | waiting => cases hs ▸ leads_stretch limit h
  | failed fault rest =>
      cases hs ▸ leads_stretch limit h
      exact .failed
  | taken bytes rest =>
      have hrest : Inlet.LeadsTo via beyond rest := by
        cases hs ▸ leads_stretch limit h
        assumption
      cases bytes with
      | nil => exact .ended
      | cons b bytes =>
          dsimp only
          split
          · cases hd : discard via rest with
            | waiting => cases hd ▸ leads_discard hrest
            | failed fault rest =>
                cases hd ▸ leads_discard hrest
                exact .failed
            | taken bytes rest =>
                cases hd ▸ leads_discard hrest
                exact .overlong ‹_›
          · exact .line hrest

end RawLine

/-! ## Asking over and over -/

/-- What a channel tells of a piece of its flow. -/
def Framed.received : Framed → Received
  | line bytes => .line (Channel.lineText bytes)
  | overlong => .overlong

namespace Channel

/-- Asks a channel for a number of lines, one after the other. -/
def receives : Nat → Channel → List Received × Channel
  | 0, c => ([], c)
  | n + 1, c => ((c.next).1 :: (receives n c.next.2).1, (receives n c.next.2).2)

@[simp] theorem receives_zero (c : Channel) : receives 0 c = ([], c) := rfl

theorem receives_succ {n : Nat} {c d : Channel} {r : Received} (h : c.next = (r, d)) :
    receives (n + 1) c = (r :: (receives n d).1, (receives n d).2) := by
  rw [receives, h]

theorem receives_add (m n : Nat) (c : Channel) :
    receives (m + n) c =
      ((receives m c).1 ++ (receives n (receives m c).2).1,
        (receives n (receives m c).2).2) := by
  induction m generalizing c with
  | zero => simp
  | succ m ih =>
      rw [Nat.succ_add, receives, receives, ih]
      rfl

theorem receives_of_ended {c : Channel} (h : c.next = (.ended, c)) (n : Nat) :
    receives n c = (List.replicate n .ended, c) := by
  induction n with
  | zero => rfl
  | succ n ih =>
      rw [receives_succ h, ih]
      rfl

/-- Whether a channel that is asked for a line tells of an end. After a fault, nothing is held and
what was beyond is next on the stream. -/
inductive Tells (beyond : List Arrival) (c : Channel) : StreamEnd → Prop where
  | clean (h : c.next = (.ended, c)) : Tells beyond c .clean
  | failed {fault} (h : c.next = (.failed fault, { c with inlet := ⟨[], beyond⟩ })) :
      Tells beyond c (.failed fault)

/-- A channel gives what reading lines gives, and then tells of the end. -/
theorem receives_of_reads {via : Protection} {beyond : List Arrival} {i : Inlet}
    {items : List Framed} {last : StreamEnd} (hreads : RawLine.Reads via i items (some last))
    (hleads : i.LeadsTo via beyond) (outlet : Outlet) :
    ∃ rest, receives items.length ⟨i, outlet, .live via⟩ =
        (items.map Framed.received, ⟨rest, outlet, .live via⟩) ∧
      Tells beyond ⟨rest, outlet, .live via⟩ last := by
  generalize he : some last = e at hreads
  induction hreads with
  | @line i rest bytes items e h _ ih =>
      have hrest : rest.LeadsTo via beyond := by
        cases h ▸ RawLine.leads_read hleads
        assumption
      obtain ⟨final, hreceives, htells⟩ := ih hrest he
      refine ⟨final, ?_, htells⟩
      have hnext : (⟨i, outlet, .live via⟩ : Channel).next =
          (.line (lineText bytes), ⟨rest, outlet, .live via⟩) := by
        simp only [next, h]
      rw [List.length_cons, receives_succ hnext, hreceives]
      rfl
  | @overlong i rest items e h _ ih =>
      have hrest : rest.LeadsTo via beyond := by
        cases h ▸ RawLine.leads_read hleads
        assumption
      obtain ⟨final, hreceives, htells⟩ := ih hrest he
      refine ⟨final, ?_, htells⟩
      have hnext : (⟨i, outlet, .live via⟩ : Channel).next =
          (.overlong, ⟨rest, outlet, .live via⟩) := by
        simp only [next, h]
      rw [List.length_cons, receives_succ hnext, hreceives]
      rfl
  | @ended i h =>
      cases he
      exact ⟨i, rfl, .clean (by simp only [next, h])⟩
  | @failed i rest fault h =>
      cases he
      cases h ▸ RawLine.leads_read hleads
      exact ⟨i, rfl, .failed (by simp only [next, h])⟩
  | waiting => cases he

/-- The results that a channel gives for the pieces of its bytes and for the rest before an end. -/
def results (pieces : List (List UInt8)) (rest : List UInt8) (last : StreamEnd) : List Received :=
  (pieces.map Framed.ofPiece ++ Framed.ofRest rest (some last)).map Framed.received

theorem receives_of_flow {via : Protection} {beyond : List Arrival} {i : Inlet}
    {bytes : List UInt8} {last : StreamEnd} (hflow : i.flow via = (bytes, some last))
    (hleads : i.LeadsTo via beyond) (outlet : Outlet) :
    ∃ pieces rest final, Text.Pieces RawLine.lineFeed bytes pieces rest ∧
      receives (results pieces rest last).length ⟨i, outlet, .live via⟩ =
        (results pieces rest last, ⟨final, outlet, .live via⟩) ∧
      Tells beyond ⟨final, outlet, .live via⟩ last := by
  obtain ⟨final, hreceives, htells⟩ :=
    receives_of_reads (RawLine.reads_of_flow hflow) hleads outlet
  refine ⟨_, _, final, Text.pieces_cutAfter RawLine.lineFeed bytes, ?_, htells⟩
  rw [results, List.length_map]
  exact hreceives

/-- Whatever protects a channel and however its bytes are cut, a channel that is asked over and over
gives one result for each piece, in order. At a clean end the rest counts as a piece, and then there
is nothing more for ever. At a fault the rest is dropped, and the bytes before the fault are in no
later result. -/
theorem receives_stream {via : Protection} {incoming beyond : List Arrival} {bytes : List UInt8}
    {last : StreamEnd} (h : Inlet.Stream via incoming bytes last beyond) (held : List UInt8)
    (outlet : Outlet) :
    let c : Channel := ⟨⟨held, incoming⟩, outlet, .live via⟩
    ∃ pieces rest, Text.Pieces RawLine.lineFeed (held ++ bytes) pieces rest ∧
      ∀ n, match last with
        | .clean =>
            (receives ((results pieces rest .clean).length + n) c).1 =
              results pieces rest .clean ++ List.replicate n .ended
        | .failed fault =>
            (receives (pieces.length + (n + 1)) c).1 =
              pieces.map (Framed.received ∘ Framed.ofPiece) ++
                .failed fault :: (receives n ⟨⟨[], beyond⟩, outlet, .live via⟩).1 := by
  intro c
  have hflow : c.inlet.flow via = (held ++ bytes, some last) := by
    rw [Inlet.flow, h.streamFlow_eq]
  obtain ⟨pieces, rest, final, hpieces, hreceives, htells⟩ :=
    receives_of_flow hflow ⟨bytes, last, h⟩ outlet
  refine ⟨pieces, rest, hpieces, fun n => ?_⟩
  cases htells with
  | clean hnext =>
      dsimp only
      rw [receives_add, hreceives, receives_of_ended hnext]
  | @failed fault hnext =>
      -- Nothing is made of the rest before a fault.
      have hresults : results pieces rest (.failed fault) =
          pieces.map (Framed.received ∘ Framed.ofPiece) := by
        simp [results, Framed.ofRest]
      rw [hresults, List.length_map] at hreceives
      dsimp only
      rw [receives_add, hreceives, receives_succ hnext]

/-- A line in two pieces under TLS, and one that a stream cut without an announcement breaks off. -/
theorem receives_stream_cut :
    let incoming : List Arrival :=
      [.bytes .tls (Text.bytes "NO"), .fault (.plain .wouldBlock),
        .bytes .tls (Text.bytes "OP\r\r\nQUIT"), .finish false]
    let c : Channel := ⟨⟨[], incoming⟩, {}, .live .tls⟩
    ∃ pieces rest,
      Text.Pieces RawLine.lineFeed (Text.bytes "NOOP\r\r\nQUIT") pieces rest ∧
      ∀ n, (receives (pieces.length + (n + 1)) c).1 =
        pieces.map (Framed.received ∘ Framed.ofPiece) ++
          .failed Inlet.cutOff :: (receives n ⟨⟨[], [.finish false]⟩, {}, .live .tls⟩).1 := by
  intro incoming c
  have hbytes : Text.bytes "NOOP\r\r\nQUIT" =
      Text.bytes "NO" ++ (Text.bytes "OP\r\r\nQUIT" ++ []) := by decide
  have hcut : Inlet.refill .tls [.finish false] = .failed Inlet.cutOff ⟨[], [.finish false]⟩ := rfl
  have hstream : Inlet.Stream .tls incoming (Text.bytes "NOOP\r\r\nQUIT")
      (.failed Inlet.cutOff) [.finish false] :=
    hbytes ▸ .piece _ (.passing rfl (.piece _ (.failed hcut)))
  exact receives_stream hstream [] {}

/-- The bytes before an interrupted read are still given as a line: the read is tried again. -/
theorem interrupted_rest_given :
    ¬ ∀ (fault : IoFault) (rest : List UInt8), rest ≠ [] → RawLine.lineFeed ∉ rest →
      (receives 1 ⟨⟨[], [.bytes .clear rest, .fault fault, .finish true]⟩, {},
        .live .clear⟩).1 = [.failed fault] := by
  intro h
  have hline : (receives 1 ⟨⟨[], [.bytes .clear (Text.bytes "NO"), .fault (.system ⟨4⟩),
      .finish true]⟩, {}, .live .clear⟩).1 = [.line "NO"] := by
    have hread : RawLine.read .clear ⟨[], [.bytes .clear (Text.bytes "NO"), .fault (.system ⟨4⟩),
        .finish true]⟩ = .line (Text.bytes "NO") ⟨[], [.fault (.system ⟨4⟩), .finish true]⟩ := by
      decide
    simp only [receives, next, hread]
    decide
  have hfault := h (.system ⟨4⟩) (Text.bytes "NO") (by decide) (by decide)
  rw [hline] at hfault
  simp at hfault

end Channel

end FtpControl

import FtpControl.Channel.RawLine
import FtpControl.Proofs.Channel.Flow
import FtpControl.Proofs.Text.Cutting

/-!
# Lines of a flow

Reading lines over and over gives the pieces of the flow that end in a line feed, one after the
other: those within the limit as lines, the others as overlong. Then comes the ending; a clean one
makes a last line of the bytes before it, if there are any.
-/

namespace FtpControl

/-- What a reader of lines is to be given for a piece of a flow. -/
inductive Framed where
  | line (bytes : List UInt8)
  | overlong
  deriving DecidableEq, Repr

namespace Framed

/-- A piece with a line feed at its end. -/
def ofPiece (piece : List UInt8) : Framed :=
  if piece.length ≤ RawLine.limit then line piece else overlong

/-- The bytes before an ending, without a line feed. -/
def ofRest (rest : List UInt8) : Option StreamEnd → List Framed
  | some .clean =>
      if rest = [] then [] else if rest.length < RawLine.limit then [line rest] else [overlong]
  | _ => []

/-- What a reader of lines is to be given for a flow. -/
def ofFlow (bytes : List UInt8) (e : Option StreamEnd) : List Framed :=
  (Text.cutAfter RawLine.lineFeed bytes).1.map ofPiece ++
    ofRest (Text.cutAfter RawLine.lineFeed bytes).2 e

theorem ofFlow_of_notMem {bytes : List UInt8} (h : RawLine.lineFeed ∉ bytes)
    (e : Option StreamEnd) : ofFlow bytes e = ofRest bytes e := by
  rw [ofFlow, Text.cutAfter_of_notMem h]
  rfl

theorem ofFlow_append_cons {front : List UInt8} (h : RawLine.lineFeed ∉ front)
    (back : List UInt8) (e : Option StreamEnd) :
    ofFlow (front ++ RawLine.lineFeed :: back) e =
      ofPiece (front ++ [RawLine.lineFeed]) :: ofFlow back e := by
  rw [ofFlow, Text.cutAfter_append_cons h]
  rfl

end Framed

namespace RawLine

variable {via : Protection}

/-! ## Bounded reads -/

/-- A bounded read ends after the first line feed, if the bound lets it get there. -/
theorem stretch_of_feed {front back : List UInt8} {e : Option StreamEnd} {n : Nat} {i : Inlet}
    (hfront : lineFeed ∉ front) (hn : front.length < n)
    (h : i.flow via = (front ++ lineFeed :: back, e)) :
    ∃ rest, stretch via n i = .taken (front ++ [lineFeed]) rest ∧ rest.flow via = (back, e) := by
  induction front generalizing n i with
  | nil =>
      obtain ⟨rest, hb, hrest⟩ := Inlet.next_of_flow h
      obtain ⟨n, rfl⟩ := Nat.exists_eq_add_of_lt hn
      exact ⟨rest, by simp [stretch, hb], hrest⟩
  | cons b front ih =>
      rw [List.mem_cons, not_or] at hfront
      obtain ⟨rest, hb, hrest⟩ := Inlet.next_of_flow h
      cases n with
      | zero => simp at hn
      | succ n =>
          obtain ⟨last, ht, hlast⟩ := ih hfront.2 (by simpa using hn) hrest
          refine ⟨last, ?_, hlast⟩
          simp [stretch, hb, Ne.symm hfront.1, ht, Stretch.prepend]

/-- A bounded read stops at its bound, if no line feed comes before. -/
theorem stretch_of_bound {front back : List UInt8} {e : Option StreamEnd} {i : Inlet}
    (hfront : lineFeed ∉ front) (h : i.flow via = (front ++ back, e)) :
    ∃ rest, stretch via front.length i = .taken front rest ∧ rest.flow via = (back, e) := by
  induction front generalizing i with
  | nil => exact ⟨i, rfl, h⟩
  | cons b front ih =>
      rw [List.mem_cons, not_or] at hfront
      obtain ⟨rest, hb, hrest⟩ := Inlet.next_of_flow h
      obtain ⟨last, ht, hlast⟩ := ih hfront.2 hrest
      refine ⟨last, ?_, hlast⟩
      simp [stretch, hb, Ne.symm hfront.1, ht, Stretch.prepend]

/-- What a read gives that comes to the end of a flow: the bytes before a clean end, the fault of
a failing one, and nothing before there is an end. -/
def Stretch.AtEnd (via : Protection) (bytes : List UInt8) (s : Stretch) : Option StreamEnd → Prop
  | some .clean => ∃ rest, s = .taken bytes rest ∧ rest.flow via = ([], some .clean)
  | some (.failed fault) => ∃ rest, s = .failed fault rest
  | none => s = .waiting

theorem Stretch.AtEnd.prepend {bytes : List UInt8} {s : Stretch} {e : Option StreamEnd}
    (h : s.AtEnd via bytes e) (b : UInt8) : (s.prepend b).AtEnd via (b :: bytes) e := by
  match e with
  | some .clean =>
      obtain ⟨rest, rfl, hrest⟩ := h
      exact ⟨rest, rfl, hrest⟩
  | some (.failed fault) =>
      obtain ⟨rest, rfl⟩ := h
      exact ⟨rest, rfl⟩
  | none =>
      cases h
      rfl

/-- Short of its bound and of line feeds, a bounded read comes to the end. -/
theorem stretch_of_end {bytes : List UInt8} {e : Option StreamEnd} {n : Nat} {i : Inlet}
    (hbytes : lineFeed ∉ bytes) (hn : bytes.length < n) (h : i.flow via = (bytes, e)) :
    (stretch via n i).AtEnd via bytes e := by
  induction bytes generalizing n i with
  | nil =>
      obtain ⟨n, rfl⟩ := Nat.exists_eq_add_of_lt hn
      match e with
      | some .clean =>
          have hnext : i.next via = .ended := Inlet.next_of_flow h
          exact ⟨i, by simp [stretch, hnext], h⟩
      | some (.failed fault) =>
          obtain ⟨rest, hnext⟩ := Inlet.next_of_flow h
          exact ⟨rest, by simp [stretch, hnext]⟩
      | none =>
          have hnext : i.next via = .waiting := Inlet.next_of_flow h
          simp [stretch, hnext, Stretch.AtEnd]
  | cons b bytes ih =>
      rw [List.mem_cons, not_or] at hbytes
      obtain ⟨rest, hb, hrest⟩ := Inlet.next_of_flow h
      cases n with
      | zero => simp at hn
      | succ n =>
          have hs := ih hbytes.2 (by simpa using hn) hrest
          simpa [stretch, hb, Ne.symm hbytes.1] using hs.prepend b

/-! ## Dropping a line -/

theorem discard_eq (via : Protection) (i : Inlet) :
    discard via i =
      match i.next via with
      | .byte b rest => if b = lineFeed then .taken [] rest else discard via rest
      | .ended => .taken [] i
      | .failed fault rest => .failed fault rest
      | .waiting => .waiting := by
  rw [discard]
  split <;> simp_all

/-- A line is dropped up to its line feed. -/
theorem discard_of_feed {front back : List UInt8} {e : Option StreamEnd} {i : Inlet}
    (hfront : lineFeed ∉ front) (h : i.flow via = (front ++ lineFeed :: back, e)) :
    ∃ rest, discard via i = .taken [] rest ∧ rest.flow via = (back, e) := by
  induction front generalizing i with
  | nil =>
      obtain ⟨rest, hb, hrest⟩ := Inlet.next_of_flow h
      exact ⟨rest, by simp [discard_eq via i, hb], hrest⟩
  | cons b front ih =>
      rw [List.mem_cons, not_or] at hfront
      obtain ⟨rest, hb, hrest⟩ := Inlet.next_of_flow h
      obtain ⟨last, ht, hlast⟩ := ih hfront.2 hrest
      exact ⟨last, by simp [discard_eq via i, hb, Ne.symm hfront.1, ht], hlast⟩

/-- Without a line feed, everything is dropped up to the end. -/
theorem discard_of_end {bytes : List UInt8} {e : Option StreamEnd} {i : Inlet}
    (hbytes : lineFeed ∉ bytes) (h : i.flow via = (bytes, e)) :
    (discard via i).AtEnd via [] e := by
  induction bytes generalizing i with
  | nil =>
      rw [discard_eq]
      match e with
      | some .clean =>
          have hnext : i.next via = .ended := Inlet.next_of_flow h
          rw [hnext]
          exact ⟨i, rfl, h⟩
      | some (.failed fault) =>
          obtain ⟨rest, hnext⟩ := Inlet.next_of_flow h
          rw [hnext]
          exact ⟨rest, rfl⟩
      | none =>
          have hnext : i.next via = .waiting := Inlet.next_of_flow h
          rw [hnext]
          rfl
  | cons b bytes ih =>
      rw [List.mem_cons, not_or] at hbytes
      obtain ⟨rest, hb, hrest⟩ := Inlet.next_of_flow h
      rw [discard_eq, hb]
      simpa [Ne.symm hbytes.1] using ih hbytes.2 hrest

/-! ## Reading a line -/

/-- What a read comes to that was cut short, once the rest of the line was dropped. -/
def ofDropped : Stretch → RawLine
  | .taken _ rest => .overlong rest
  | .failed fault rest => .failed fault rest
  | .waiting => .waiting

theorem read_of_feed {front back : List UInt8} {e : Option StreamEnd} {i : Inlet}
    (hfront : lineFeed ∉ front) (hn : front.length < limit)
    (h : i.flow via = (front ++ lineFeed :: back, e)) :
    ∃ rest, read via i = .line (front ++ [lineFeed]) rest ∧ rest.flow via = (back, e) := by
  obtain ⟨rest, hs, hrest⟩ := stretch_of_feed hfront hn h
  refine ⟨rest, ?_, hrest⟩
  obtain ⟨b, bytes, hcons⟩ : ∃ b bytes, front ++ [lineFeed] = b :: bytes := by
    cases front with
    | nil => exact ⟨_, _, rfl⟩
    | cons b front => exact ⟨_, _, rfl⟩
  have hwhole : isCutShort (b :: bytes) = false := by
    rw [← hcons]
    simp [isCutShort]
  rw [read, hs, hcons]
  simp [hwhole]

/-- A line that does not end within the limit is dropped. -/
theorem read_of_bound {front back : List UInt8} {e : Option StreamEnd} {i : Inlet}
    (hfront : lineFeed ∉ front) (hn : front.length = limit)
    (h : i.flow via = (front ++ back, e)) :
    ∃ rest, read via i = ofDropped (discard via rest) ∧ rest.flow via = (back, e) := by
  obtain ⟨rest, hs, hrest⟩ := stretch_of_bound hfront h
  refine ⟨rest, ?_, hrest⟩
  cases front with
  | nil => simp [limit] at hn
  | cons b bytes =>
      have hlast : (b :: bytes).getLast? ≠ some lineFeed := by
        intro hlast
        exact hfront (List.mem_of_getLast? hlast)
      have hcut : isCutShort (b :: bytes) = true := by
        simp only [isCutShort, hn, decide_true, Bool.true_and, bne_iff_ne]
        exact hlast
      rw [hn] at hs
      rw [read, hs]
      simp only [hcut, if_true]
      rfl

/-- Lines read over and over: what was given, one after the other, and the end that came then. -/
inductive Reads (via : Protection) : Inlet → List Framed → Option StreamEnd → Prop where
  | line {i rest bytes items e} (h : read via i = .line bytes rest)
      (hrest : Reads via rest items e) : Reads via i (.line bytes :: items) e
  | overlong {i rest items e} (h : read via i = .overlong rest)
      (hrest : Reads via rest items e) : Reads via i (.overlong :: items) e
  | ended {i} (h : read via i = .ended) : Reads via i [] (some .clean)
  | failed {i rest fault} (h : read via i = .failed fault rest) :
      Reads via i [] (some (.failed fault))
  | waiting {i} (h : read via i = .waiting) : Reads via i [] none

theorem reads_nil_of_clean {i : Inlet} (h : i.flow via = ([], some .clean)) :
    Reads via i [] (some .clean) := by
  obtain ⟨rest, hs, -⟩ := stretch_of_end (n := limit) (by simp) (by decide) h
  exact .ended (by rw [read, hs])

theorem reads_of_rest {bytes : List UInt8} {e : Option StreamEnd} {i : Inlet}
    (hbytes : lineFeed ∉ bytes) (h : i.flow via = (bytes, e)) :
    Reads via i (Framed.ofRest bytes e) e := by
  by_cases hn : bytes.length < limit
  · have hs := stretch_of_end hbytes hn h
    match e with
    | some .clean =>
        obtain ⟨rest, hs, hrest⟩ := hs
        cases bytes with
        | nil => exact reads_nil_of_clean h
        | cons b bytes =>
            have hwhole : isCutShort (b :: bytes) = false := by
              rw [isCutShort, decide_eq_false (Nat.ne_of_lt hn)]
              rfl
            rw [Framed.ofRest, if_neg (List.cons_ne_nil b bytes), if_pos hn]
            refine .line ?_ (reads_nil_of_clean hrest)
            rw [read, hs]
            simp [hwhole]
    | some (.failed fault) =>
        obtain ⟨rest, hs⟩ := hs
        exact .failed (show read via i = .failed fault rest by rw [read, hs])
    | none => exact .waiting (by rw [read, show stretch via limit i = .waiting from hs])
  · have hlen : (bytes.take limit).length = limit := by
      rw [List.length_take]
      omega
    have hfront : lineFeed ∉ bytes.take limit := fun hm => hbytes (List.mem_of_mem_take hm)
    have hback : lineFeed ∉ bytes.drop limit := fun hm => hbytes (List.mem_of_mem_drop hm)
    have hsplit : bytes = bytes.take limit ++ bytes.drop limit :=
      (List.take_append_drop limit bytes).symm
    obtain ⟨rest, hr, hrest⟩ := read_of_bound hfront hlen (hsplit ▸ h)
    have hd := discard_of_end hback hrest
    match e with
    | some .clean =>
        obtain ⟨last, hd, hlast⟩ := hd
        have hne : bytes ≠ [] := by
          rintro rfl
          simp [limit] at hn
        rw [Framed.ofRest, if_neg hne, if_neg hn]
        exact .overlong (by rw [hr, hd]; rfl) (reads_nil_of_clean hlast)
    | some (.failed fault) =>
        obtain ⟨last, hd⟩ := hd
        exact .failed (show read via i = .failed fault last by rw [hr, hd]; rfl)
    | none => exact .waiting (by rw [hr, show discard via rest = .waiting from hd]; rfl)

/-- Reading lines gives the lines of the flow, however its bytes were cut into pieces. -/
theorem reads_of_flow {bytes : List UInt8} {e : Option StreamEnd} {i : Inlet}
    (h : i.flow via = (bytes, e)) : Reads via i (Framed.ofFlow bytes e) e := by
  induction hlen : bytes.length using Nat.strongRecOn generalizing bytes i with
  | ind n ih =>
      rcases Text.notMem_or_splits lineFeed bytes with hno | ⟨front, back, rfl, hfront⟩
      · rw [Framed.ofFlow_of_notMem hno]
        exact reads_of_rest hno h
      · -- A line takes at least its line feed, so less is left to read.
        have hback : back.length < n := by
          simp only [List.length_append, List.length_cons] at hlen
          omega
        rw [Framed.ofFlow_append_cons hfront]
        by_cases hn : front.length < limit
        · obtain ⟨rest, hr, hrest⟩ := read_of_feed hfront hn h
          have hfits : (front ++ [lineFeed]).length ≤ limit := by
            rw [List.length_append, List.length_singleton]
            omega
          rw [Framed.ofPiece, if_pos hfits]
          exact .line hr (ih _ hback hrest rfl)
        · have hsplit : front ++ lineFeed :: back =
              front.take limit ++ (front.drop limit ++ lineFeed :: back) := by
            rw [← List.append_assoc, List.take_append_drop]
          have htake : lineFeed ∉ front.take limit :=
            fun hm => hfront (List.mem_of_mem_take hm)
          have hdrop : lineFeed ∉ front.drop limit :=
            fun hm => hfront (List.mem_of_mem_drop hm)
          have htakeLength : (front.take limit).length = limit := by
            rw [List.length_take]
            omega
          obtain ⟨mid, hr, hmid⟩ := read_of_bound htake htakeLength (hsplit ▸ h)
          obtain ⟨rest, hd, hrest⟩ := discard_of_feed hdrop hmid
          have hlong : ¬ (front ++ [lineFeed]).length ≤ limit := by
            rw [List.length_append, List.length_singleton]
            omega
          rw [Framed.ofPiece, if_neg hlong]
          exact .overlong (by rw [hr, hd]; rfl) (ih _ hback hrest rfl)

end RawLine

end FtpControl

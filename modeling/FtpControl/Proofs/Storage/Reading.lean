import FtpControl.Storage.Checksum

/-!
# Handles as positions in a content

A handle shows a content when all that it gives stands in the content at the handle's position. How
much one read gives is left open. Nothing is said of how a storage keeps its handles: what position
a handle has is a relation between positions, handles and states that reads and moves respect.
-/

namespace FtpControl

variable {σ κ : Type}

/-! ## Requests -/

namespace Ledger

variable {st : Storage σ κ} {l m : Ledger σ} {h h' : κ}

theorem ask_spec {α : Type} {call : Call} {request : σ → α × σ} {a : α}
    (hask : l.ask call request = (a, m)) : request l.store = (a, m.store) := by
  obtain ⟨rfl, rfl⟩ := Prod.mk.injEq .. ▸ hask
  rfl

theorem read_spec {most : Nat} {answer : Except IoFault (List UInt8)}
    (hread : l.read st h most = ((answer, h'), m)) :
    st.read h most l.store = (answer, h', m.store) := by
  have hask := ask_spec hread
  simp only [Prod.mk.injEq] at hask
  obtain ⟨⟨rfl, rfl⟩, hstore⟩ := hask
  rw [← hstore]

theorem seek_spec {offset : Nat} {answer : Except IoFault Unit}
    (hseek : l.seek st h offset = ((answer, h'), m)) :
    st.seek h offset l.store = (answer, h', m.store) := by
  have hask := ask_spec hseek
  simp only [Prod.mk.injEq] at hask
  obtain ⟨⟨rfl, rfl⟩, hstore⟩ := hask
  rw [← hstore]

end Ledger

/-! ## What a handle shows -/

namespace Storage

/-- What handles give stands in the content at their positions. -/
structure Shows (st : Storage σ κ) (content : List UInt8) (At : Nat → κ → σ → Prop) : Prop where
  read : ∀ {p h s most bytes h' s'}, At p h s → st.read h most s = (.ok bytes, h', s') →
    bytes <+: content.drop p ∧ bytes.length ≤ most ∧ At (p + bytes.length) h' s'
  seek : ∀ {p h s offset h' s'}, At p h s → st.seek h offset s = (.ok (), h', s') →
    At offset h' s'

/-- Opening a path for reading gives handles at the beginning, or at the offset asked for. -/
structure Opens (st : Storage σ κ) (path : String) (At : Nat → κ → σ → Prop) (s : σ) : Prop where
  atStart : ∀ {h s'}, st.openFile path .readOnly 0o777 s = (.ok h, s') → At 0 h s'
  atOffset : ∀ {openAt offset h s'}, st.openAt? = some openAt →
    openAt path .readOnly offset s = (.ok h, s') → At offset h s'

/-- Whether a path, opened now, shows a content, as far as it shows anything. -/
def Holds (st : Storage σ κ) (path : String) (content : List UInt8) (s : σ) : Prop :=
  ∃ At, st.Shows content At ∧ st.Opens path At s

end Storage

namespace Checksum

variable {st : Storage σ κ} {content : List UInt8} {At : Nat → κ → σ → Prop} {l m : Ledger σ}

theorem extract_of_front {bytes : List UInt8} {p : Nat} (h : bytes <+: content.drop p)
    (remaining : Nat) (hle : bytes.length ≤ remaining) :
    (content.drop p).take remaining =
      bytes ++ (content.drop (p + bytes.length)).take (remaining - bytes.length) := by
  obtain ⟨rest, hrest⟩ := h
  rw [← List.drop_drop, ← hrest, List.drop_left, List.take_append, List.take_of_length_le hle]

theorem length_le_of_front {bytes : List UInt8} {p : Nat} (h : bytes <+: content.drop p)
    (hne : bytes ≠ []) : p + bytes.length ≤ content.length := by
  have hlength := h.length_le
  have hpos := List.length_pos_iff.mpr hne
  rw [List.length_drop] at hlength
  omega

/-- What was read into a digest is the content from the position on, and all of it was there. -/
theorem engine_of_stream (hshows : st.Shows content At) {total remaining : Nat} {h h' : κ}
    {engine final : DigestEngine} (p : Nat) (hat : At p h l.store)
    (hstream : stream st total remaining h engine l = (.ok final, h', m)) :
    final = engine.update ((content.drop p).take remaining) ∧
      (0 < remaining → p + remaining ≤ content.length) := by
  fun_induction stream generalizing p with
  | case1 =>
      obtain ⟨hfinal, -⟩ := Prod.mk.injEq .. ▸ hstream
      simp_all
  | case2 => simp at hstream
  | case3 => simp at hstream
  | case4 remaining h engine l hne want bytes h₁ l₁ hread b bs htake ih =>
      obtain ⟨hfront, hmost, hnext⟩ := hshows.read hat (Ledger.read_spec hread)
      obtain rfl : bytes = b :: bs := by rw [← htake, List.take_of_length_le hmost]
      have hle : (b :: bs).length ≤ remaining := Nat.le_trans hmost (Nat.min_le_left ..)
      have hthere := length_le_of_front hfront (List.cons_ne_nil b bs)
      obtain ⟨hfinal, hrest⟩ := ih _ hnext hstream
      constructor
      · rw [hfinal, ← DigestEngine.update_append, extract_of_front hfront remaining hle]
        rfl
      · intro hpos
        simp only [List.length_cons] at hle hthere hrest
        omega

/-- A handle that was opened at the start of a range stands there. -/
theorem at_of_openRange (hshows : st.Shows content At) {path : String} {start : Nat} {h : κ}
    (hopens : st.Opens path At l.store) (hopen : openRange st path start l = (.ok h, m)) :
    At start h m.store := by
  unfold openRange at hopen
  split at hopen
  · next openAt hoffset => exact hopens.atOffset hoffset (Ledger.ask_spec hopen)
  · split at hopen
    · simp at hopen
    · next h₁ l₁ hfile =>
        have hbegin := hopens.atStart (Ledger.ask_spec hfile)
        split at hopen
        · next hstart =>
            obtain ⟨hh, rfl⟩ := Prod.mk.injEq .. ▸ hopen
            obtain rfl := Except.ok.inj hh
            rwa [hstart]
        · split at hopen
          · next h₂ l₂ hseek =>
              obtain ⟨hh, rfl⟩ := Prod.mk.injEq .. ▸ hopen
              obtain rfl := Except.ok.inj hh
              exact hshows.seek hbegin (Ledger.seek_spec hseek)
          · simp at hopen

/-- The digest of a range is the digest of the bytes there, and the content has all of them. -/
theorem digest_of_ofRange {path : String} {a : HashAlgorithm} {range : ByteRange} {hex : String}
    (hholds : st.Holds path content l.store) (hle : range.start ≤ range.stop)
    (hdigest : ofRange st path a range l = (.ok hex, m)) :
    hex = a.hashBytes (content.extract range.start range.stop) ∧
      (range.start < range.stop → range.stop ≤ content.length) := by
  obtain ⟨At, hshows, hopens⟩ := hholds
  rw [ofRange, if_neg (Nat.not_lt.mpr hle)] at hdigest
  split at hdigest
  · simp at hdigest
  · next h l₁ hopen =>
      have hat := at_of_openRange hshows hopens hopen
      rcases hstream : stream st (range.stop - range.start) (range.stop - range.start) h
        (.start a) l₁ with ⟨_ | final, h₂, l₂⟩
      · simp [hstream, Except.map] at hdigest
      · obtain ⟨rfl, hthere⟩ := engine_of_stream hshows _ hat hstream
        simp only [hstream, Except.map, Prod.mk.injEq, Except.ok.injEq] at hdigest
        refine ⟨hdigest.1.symm, ?_⟩
        intro hlt
        have := hthere (by omega)
        omega

end Checksum

end FtpControl

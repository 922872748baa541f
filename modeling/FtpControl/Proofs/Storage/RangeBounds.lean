import FtpControl.Proofs.Storage.Serving

/-!
# Ranges that are none

A range whose stop stands before its start is refused before anything is opened. A stop beyond the
end of the content shows only when reading gets there: a range of at least one byte is refused then,
but of an empty one nothing is read, and it has the digest of no bytes wherever it lies.
-/

namespace FtpControl.Checksum

variable {σ κ : Type} {st : Storage σ κ} {path : String} {a : HashAlgorithm} {range : ByteRange}
  {l : Ledger σ} {content : List UInt8}

theorem ofRange_of_stop_lt (h : range.stop < range.start) :
    ofRange st path a range l = (.error (.invalidRange range.start range.stop), l) := if_pos h

/-- Of an empty range nothing is read: it has the digest of no bytes if it can be opened. -/
theorem ofRange_of_empty (h : range.start = range.stop) :
    (ofRange st path a range l).1 =
      (openRange st path range.start l).1.map fun _ => a.hashBytes [] := by
  rw [ofRange, if_neg (by omega)]
  rcases openRange st path range.start l with ⟨f | handle, m⟩
  · rfl
  · have hnone : ∀ total engine, stream st total 0 handle engine m = (.ok engine, handle, m) := by
      intro total engine
      rw [stream, if_pos rfl]
    simp only [h, Nat.sub_self, hnone, Except.map, HashAlgorithm.hashBytes, DigestEngine.update_nil]

theorem ofRange_of_length_lt (hholds : st.Holds path content l.store)
    (hlt : range.start < range.stop) (hlong : content.length < range.stop) :
    ∃ f, (ofRange st path a range l).1 = .error f := by
  rcases hdigest : ofRange st path a range l with ⟨f | hex, m⟩
  · exact ⟨f, rfl⟩
  · obtain ⟨-, hthere⟩ := digest_of_ofRange hholds (Nat.le_of_lt hlt) hdigest
    exact absurd (hthere hlt) (Nat.not_le.mpr hlong)

/-- A range that ends before it starts is refused, with nothing asked of the storage. A range that
goes beyond the content is refused exactly if it has a byte or cannot be opened. -/
theorem invalid_range_refused_iff (st : Storage σ κ) (path : String) (a : HashAlgorithm)
    (range : ByteRange) (l : Ledger σ) :
    (range.stop < range.start →
      ofRange st path a range l = (.error (.invalidRange range.start range.stop), l)) ∧
      ∀ content, st.Holds path content l.store → content.length < range.stop →
        ((∃ f, (ofRange st path a range l).1 = .error f) ↔
          range.start ≠ range.stop ∨ ∃ f, (openRange st path range.start l).1 = .error f) := by
  refine ⟨ofRange_of_stop_lt, fun content hholds hlong => ?_⟩
  rcases Nat.lt_trichotomy range.stop range.start with hback | hempty | hlt
  · rw [ofRange_of_stop_lt hback]
    exact iff_of_true ⟨_, rfl⟩ (.inl (by omega))
  · rw [ofRange_of_empty hempty.symm]
    cases (openRange st path range.start l).1 with
    | error f => exact iff_of_true ⟨f, rfl⟩ (.inr ⟨f, rfl⟩)
    | ok handle => exact iff_of_false (by simp [Except.map]) (by simp [hempty])
  · exact iff_of_true (ofRange_of_length_lt hholds hlt hlong) (.inl (by omega))

/-- Five bytes, asked for the sixth, and asked backwards. -/
theorem invalid_range_refused_in_memory :
    let entry : MemoryEntry :=
      { path := "a", info := { name := "a", kind := .file, size := 5 }
        data := [104, 101, 108, 108, 111] }
    let l : Ledger MemoryStore := { store := [entry] }
    (∀ offsets, ∃ f, (ofRange (MemoryStore.complete offsets) "a" .crc32 ⟨5, 6⟩ l).1 = .error f) ∧
      ofRange (MemoryStore.complete true) "a" .crc32 ⟨6, 5⟩ l =
        (.error (.invalidRange 6 5), l) := by
  intro entry l
  refine ⟨fun offsets => ?_, ?_⟩
  · have hholds : (MemoryStore.complete offsets).Holds "a" entry.data l.store :=
      MemoryStore.holds (by simp [MemoryStore.find?, entry, l]) rfl
    obtain ⟨-, hbeyond⟩ :=
      invalid_range_refused_iff (MemoryStore.complete offsets) "a" .crc32 ⟨5, 6⟩ l
    exact (hbeyond entry.data hholds (by decide)).mpr (.inl (by decide))
  · exact (invalid_range_refused_iff (MemoryStore.complete true) "a" .crc32 ⟨6, 5⟩ l).1 (by decide)

/-- An empty range beyond the end of five bytes has a digest, by either way of opening. -/
theorem empty_range_beyond_end :
    let entry : MemoryEntry :=
      { path := "a", info := { name := "a", kind := .file, size := 5 }
        data := [104, 101, 108, 108, 111] }
    let ask := fun offsets =>
      (ofRange (MemoryStore.complete offsets) "a" .crc32 ⟨6, 6⟩ { store := [entry] }).1
    entry.data.length < 6 ∧ ask true = .ok "00000000" ∧ ask false = .ok "00000000" := by
  intro entry ask
  have hempty : HashAlgorithm.crc32.hashBytes [] = "00000000" := by decide +kernel
  refine ⟨by decide, ?_, ?_⟩
  · exact (ofRange_of_empty rfl).trans (congrArg Except.ok hempty)
  · exact (ofRange_of_empty rfl).trans (congrArg Except.ok hempty)

end FtpControl.Checksum

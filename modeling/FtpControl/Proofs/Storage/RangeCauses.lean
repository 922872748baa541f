import FtpControl.Proofs.Storage.Reading

/-!
# What a digest depends on

The digest of a range is up to what the storage opens and what the handle gives. Where there is
none, the storage did not open the file, a handle failed, or the bytes ended too early.
-/

namespace FtpControl

variable {σ κ : Type}

/-! ## What a handle gives -/

/-- Handles that give the same in two states, and do so for ever. -/
structure Storage.ReadsAlike (st : Storage σ κ) (Alike : κ → σ → σ → Prop) : Prop where
  read : ∀ {h s s'}, Alike h s s' → ∀ most,
    (st.read h most s').1 = (st.read h most s).1 ∧
      (st.read h most s').2.1 = (st.read h most s).2.1 ∧
        Alike (st.read h most s).2.1 (st.read h most s).2.2 (st.read h most s').2.2

namespace Checksum

variable {st : Storage σ κ} {l m : Ledger σ}

theorem read_alike {Alike : κ → σ → σ → Prop} (halike : st.ReadsAlike Alike) {h h₁ : κ}
    {most : Nat} {answer : Except IoFault (List UInt8)} {l₁ : Ledger σ}
    (hat : Alike h l.store m.store) (hread : l.read st h most = ((answer, h₁), l₁)) :
    ∃ m₁, m.read st h most = ((answer, h₁), m₁) ∧ Alike h₁ l₁.store m₁.store := by
  obtain ⟨hanswer, hhandle, hnext⟩ := halike.read hat most
  have hspec := Ledger.read_spec hread
  rw [hspec] at hanswer hhandle hnext
  refine ⟨_, Prod.ext (Prod.ext hanswer hhandle) rfl, hnext⟩

/-- The digest of what a handle gives depends on nothing but what it gives. -/
theorem stream_congr {Alike : κ → σ → σ → Prop} (halike : st.ReadsAlike Alike)
    {total remaining : Nat} {h : κ} {engine : DigestEngine} (m : Ledger σ)
    (hat : Alike h l.store m.store) :
    (stream st total remaining h engine l).1 = (stream st total remaining h engine m).1 := by
  fun_induction stream st total remaining h engine l generalizing m with
  | case1 => rw [stream, if_pos rfl]
  | case2 remaining h engine l hne want fault h₁ l₁ hread =>
      obtain ⟨m₁, hagain, -⟩ := read_alike halike hat hread
      rw [stream, if_neg hne]
      simp only [hagain, want]
  | case3 remaining h engine l hne want bytes h₁ l₁ hread htake =>
      obtain ⟨m₁, hagain, -⟩ := read_alike halike hat hread
      rw [stream, if_neg hne]
      simp only [hagain, want, htake]
  | case4 remaining h engine l hne want bytes h₁ l₁ hread b bs htake ih =>
      obtain ⟨m₁, hagain, hnext⟩ := read_alike halike hat hread
      rw [ih m₁ hnext]
      conv => rhs; rw [stream, if_neg hne]
      simp only [hagain, want, htake]

end Checksum

/-! ## Why a range has no digest -/

/-- Whether a storage, asked to open a path from a start on, fails with a failure of its own. -/
inductive Storage.Refuses (st : Storage σ κ) (path : String) (start : Nat) (s : σ) :
    Failure → Prop where
  | direct {openAt f s'} (hoffset : st.openAt? = some openAt)
      (hopen : openAt path .readOnly start s = (.error f, s')) : Refuses st path start s f
  | generic {f s'} (hoffset : st.openAt? = none)
      (hopen : st.openFile path .readOnly 0o777 s = (.error f, s')) : Refuses st path start s f

namespace Storage

variable {st : Storage σ κ} {path : String} {start : Nat} {s s' : σ} {h : κ}

theorem not_refuses_of_openAt {openAt : String → OpenMode → Nat → σ → Except Failure κ × σ}
    (hoffers : st.openAt? = some openAt) (hopen : openAt path .readOnly start s = (.ok h, s'))
    (f : Failure) : ¬ st.Refuses path start s f := by
  intro hrefuses
  cases hrefuses with
  | direct hoffset hfails =>
      obtain rfl := Option.some.inj (hoffers.symm.trans hoffset)
      simp [hopen] at hfails
  | generic hoffset => simp [hoffers] at hoffset

theorem not_refuses_of_openFile (hoffers : st.openAt? = none)
    (hopen : st.openFile path .readOnly 0o777 s = (.ok h, s')) (f : Failure) :
    ¬ st.Refuses path start s f := by
  intro hrefuses
  cases hrefuses with
  | direct hoffset => simp [hoffers] at hoffset
  | generic _ hfails => simp [hopen] at hfails

end Storage

namespace Checksum

/-- The causes for which a range of a file has no digest. -/
inductive Cause (st : Storage σ κ) (path : String) (range : ByteRange) (s : σ) :
    Failure → Prop where
  | opening {f} (h : st.Refuses path range.start s f) : Cause st path range s f
  | handle (fault : IoFault) : Cause st path range s fault.toFailure
  | ended {got} (h : got < range.stop - range.start) :
      Cause st path range s (.unexpectedEof (range.stop - range.start) got)

variable {st : Storage σ κ} {path : String} {l m : Ledger σ} {f : Failure}

theorem cause_of_openRange {range : ByteRange}
    (hopen : openRange st path range.start l = (.error f, m)) :
    Cause st path range l.store f := by
  unfold openRange at hopen
  split at hopen
  · next openAt hoffset => exact .opening (.direct hoffset (Ledger.ask_spec hopen))
  · next hoffset =>
      split at hopen
      · next f' l₁ hfile =>
          obtain ⟨hf, -⟩ := Prod.mk.injEq .. ▸ hopen
          obtain rfl := Except.error.inj hf
          exact .opening (.generic hoffset (Ledger.ask_spec hfile))
      · split at hopen
        · simp at hopen
        · split at hopen
          · simp at hopen
          · next fault h₁ l₁ hseek =>
              obtain ⟨hf, -⟩ := Prod.mk.injEq .. ▸ hopen
              obtain rfl := Except.error.inj hf
              exact .handle fault

theorem cause_of_stream {range : ByteRange} {s : σ} {remaining : Nat} {h h' : κ}
    {engine : DigestEngine} (hle : remaining ≤ range.stop - range.start)
    (hstream : stream st (range.stop - range.start) remaining h engine l = (.error f, h', m)) :
    Cause st path range s f := by
  fun_induction stream with
  | case1 => simp at hstream
  | case2 remaining h engine l hne want fault h₁ l₁ hread =>
      obtain ⟨hf, -⟩ := Prod.mk.injEq .. ▸ hstream
      obtain rfl := Except.error.inj hf
      exact .handle fault
  | case3 remaining h engine l hne want bytes h₁ l₁ hread htake =>
      obtain ⟨hf, -⟩ := Prod.mk.injEq .. ▸ hstream
      obtain rfl := Except.error.inj hf
      exact .ended (by omega)
  | case4 remaining h engine l hne want bytes h₁ l₁ hread b bs htake ih =>
      exact ih (by omega) hstream

/-- A range in order has no digest only for one of the causes. -/
theorem cause_of_ofRange {a : HashAlgorithm} {range : ByteRange}
    (hle : range.start ≤ range.stop) (hdigest : (ofRange st path a range l).1 = .error f) :
    Cause st path range l.store f := by
  rw [ofRange, if_neg (Nat.not_lt.mpr hle)] at hdigest
  rcases hopen : openRange st path range.start l with ⟨f' | h, l₁⟩
  · simp only [hopen, Except.error.injEq] at hdigest
    subst hdigest
    exact cause_of_openRange hopen
  · simp only [hopen] at hdigest
    rcases hstream : stream st (range.stop - range.start) (range.stop - range.start) h
      (.start a) l₁ with ⟨f' | final, h₂, l₂⟩
    · simp only [hstream, Except.map, Except.error.injEq] at hdigest
      subst hdigest
      exact cause_of_stream (Nat.le_refl _) hstream
    · simp [hstream, Except.map] at hdigest

end Checksum

theorem IoFault.kind_toFailure (fault : IoFault) :
    fault.toFailure.kind = .notFound ∨ fault.toFailure.kind = .unexpectedEof ∨
      fault.toFailure.kind = .io := by
  unfold toFailure
  split <;> simp

/-- Only a storage that does not open the file can blame the range or the algorithm. -/
theorem Checksum.Cause.kind {st : Storage σ κ} {path : String} {range : ByteRange} {s : σ}
    {f : Failure} (h : Cause st path range s f) :
    st.Refuses path range.start s f ∨
      (f.kind ≠ .invalidRange ∧ f.kind ≠ .unknownHashAlgorithm) := by
  cases h with
  | opening h => exact .inl h
  | ended => exact .inr ⟨by simp [Failure.unexpectedEof], by simp [Failure.unexpectedEof]⟩
  | handle fault =>
      right
      rcases fault.kind_toFailure with h | h | h <;> simp [h]

end FtpControl

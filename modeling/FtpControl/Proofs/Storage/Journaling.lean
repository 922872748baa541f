import FtpControl.Storage.Checksum

/-!
# The journal is never read

What was done before is in the journal of a ledger, and nothing that a storage is asked depends on
it: a request and a digest come to the same on a ledger that stands behind other events, which stay
in front of what is added. So they are up to the state of the storage.
-/

namespace FtpControl

variable {σ κ : Type}

namespace Ledger

/-- The ledger with other events in front of its journal. -/
def behind (before : Array Event) (l : Ledger σ) : Ledger σ :=
  { l with journal := before ++ l.journal }

/-- Every ledger stands behind its own journal. -/
theorem eq_behind (l : Ledger σ) : l = behind l.journal ⟨l.store, #[]⟩ := by
  simp [behind]

/-- A question that does not depend on what stands in the journal is answered by the state of the
storage. -/
theorem fst_congr {α : Type} {f : Ledger σ → α × Ledger σ}
    (hf : ∀ before l, f (behind before l) = ((f l).1, behind before (f l).2)) {l m : Ledger σ}
    (hstore : l.store = m.store) : (f l).1 = (f m).1 := by
  -- Both ledgers are the one with their state and an empty journal, behind what they have done.
  have hl := congrArg Prod.fst (hf l.journal ⟨l.store, #[]⟩)
  have hm := congrArg Prod.fst (hf m.journal ⟨m.store, #[]⟩)
  rw [← eq_behind] at hl hm
  rw [hl, hm, hstore]

variable (before : Array Event) (l : Ledger σ)

@[simp] theorem note_behind (e : Event) :
    (l.behind before).note e = (l.note e).behind before := by
  simp [behind, note]

@[simp] theorem log_behind (level : LogLevel) (text : String) :
    (l.behind before).log level text = (l.log level text).behind before := note_behind ..

/-! ## Requests -/

@[simp] theorem ask_behind {α : Type} (call : Call) (request : σ → α × σ) :
    (l.behind before).ask call request =
      ((l.ask call request).1, (l.ask call request).2.behind before) := by
  simp [behind, ask]

variable (st : Storage σ κ)

@[simp] theorem stat_behind (path : String) :
    (l.behind before).stat st path = ((l.stat st path).1, (l.stat st path).2.behind before) :=
  ask_behind ..

@[simp] theorem openFile_behind (path : String) (mode : OpenMode) (permissions : Nat) :
    (l.behind before).openFile st path mode permissions =
      ((l.openFile st path mode permissions).1,
        (l.openFile st path mode permissions).2.behind before) :=
  ask_behind ..

@[simp] theorem readDir_behind (path : String) :
    (l.behind before).readDir st path =
      ((l.readDir st path).1, (l.readDir st path).2.behind before) :=
  ask_behind ..

@[simp] theorem seek_behind (handle : κ) (offset : Nat) :
    (l.behind before).seek st handle offset =
      ((l.seek st handle offset).1, (l.seek st handle offset).2.behind before) :=
  ask_behind ..

@[simp] theorem read_behind (handle : κ) (most : Nat) :
    (l.behind before).read st handle most =
      ((l.read st handle most).1, (l.read st handle most).2.behind before) :=
  ask_behind ..

@[simp] theorem release_behind (handle : κ) :
    (l.behind before).release st handle = (l.release st handle).behind before := by
  simp [release]

end Ledger

/-! ## Digests -/

namespace Checksum

theorem stream_behind (before : Array Event) (st : Storage σ κ) (total remaining : Nat)
    (handle : κ) (engine : DigestEngine) (l : Ledger σ) :
    stream st total remaining handle engine (l.behind before) =
      ((stream st total remaining handle engine l).1,
        (stream st total remaining handle engine l).2.1,
        (stream st total remaining handle engine l).2.2.behind before) := by
  fun_induction stream st total remaining handle engine l with
  | case1 => rw [stream, if_pos rfl]
  | case2 remaining handle engine l hne want fault h l' hread =>
      rw [stream, if_neg hne]
      simp only [Ledger.read_behind, want, hread]
  | case3 remaining handle engine l hne want bytes h l' hread htake =>
      rw [stream, if_neg hne]
      simp only [Ledger.read_behind, want, hread, htake]
  | case4 remaining handle engine l hne want bytes h l' hread b bs htake ih =>
      rw [stream, if_neg hne]
      simp only [Ledger.read_behind, want, hread, htake]
      exact ih

variable (before : Array Event) (st : Storage σ κ) (path : String) (l : Ledger σ)

theorem openRange_behind (start : Nat) :
    openRange st path start (l.behind before) =
      ((openRange st path start l).1, (openRange st path start l).2.behind before) := by
  unfold openRange
  cases st.openAt? with
  | some openAt => exact Ledger.ask_behind ..
  | none =>
      simp only [Ledger.openFile_behind]
      rcases l.openFile st path .readOnly 0o777 with ⟨f | handle, m⟩
      · rfl
      · by_cases hstart : start = 0
        · simp only [hstart, if_true]
        · simp only [hstart, if_false, Ledger.seek_behind]
          rcases m.seek st handle start with ⟨⟨_ | _, handle⟩, n⟩
          · simp only [Ledger.release_behind]
          · rfl

theorem ofRange_behind (a : HashAlgorithm) (range : ByteRange) :
    ofRange st path a range (l.behind before) =
      ((ofRange st path a range l).1, (ofRange st path a range l).2.behind before) := by
  unfold ofRange
  split
  · rfl
  · simp only [openRange_behind]
    rcases openRange st path range.start l with ⟨f | handle, m⟩
    · rfl
    · simp only [stream_behind, Ledger.release_behind]

end Checksum

end FtpControl

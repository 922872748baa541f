import FtpControl.Proofs.Channel.Sending
import FtpControl.Storage.Checksum

/-!
# Calls of a storage

What was asked of a storage is a list of calls, and its state has changed by these calls alone. Most
calls only read; what they leave as it is, any list of them does.
-/

namespace FtpControl

variable {σ κ : Type}

/-! ## Kinds of calls -/

namespace Call

/-- Whether a call opens a file for reading and nothing else. -/
def Opens (path : String) : Call → Prop
  | openFile p mode _ => p = path ∧ mode = .readOnly
  | openAt p mode _ => p = path ∧ mode = .readOnly
  | _ => False

/-- Whether a call goes to a handle on a file. -/
def OnHandle : Call → Prop
  | seek _ => True
  | read _ => True
  | release => True
  | _ => False

/-- Whether a call opens a file, in any mode, or goes to a handle on one. -/
def UsesFile : Call → Prop
  | openFile .. => True
  | openAt .. => True
  | call => call.OnHandle

/-- Whether a call is a request for a change of permissions, owners or links. -/
def Changes : Call → Prop
  | chmod .. => True
  | chown .. => True
  | symlink .. => True
  | _ => False

/-- Whether a call describes something, or reads from a file that was opened for nothing else. -/
def Reads : Call → Prop
  | stat _ => True
  | readDir _ => True
  | openFile _ mode _ => mode = .readOnly
  | openAt _ mode _ => mode = .readOnly
  | call => call.OnHandle

theorem Opens.reads {path : String} {call : Call} (h : call.Opens path) : call.Reads := by
  cases call <;> first | exact h.2 | exact h.elim

theorem OnHandle.reads {call : Call} (h : call.OnHandle) : call.Reads := by
  cases call <;> trivial

/-- A call that only reads is no request for a change. -/
theorem Reads.not_changes {call : Call} (h : call.Reads) : ¬ call.Changes := by
  cases call <;> first | exact h.elim | exact id

/-- The calls of a file that is opened and then read: it is opened once, for reading only, and all
that follows goes to the handle. -/
inductive Fetches (path : String) : List Call → Prop where
  | opened {first rest} (hfirst : first.Opens path) (hrest : ∀ call ∈ rest, call.OnHandle) :
      Fetches path (first :: rest)

namespace Fetches

variable {path : String} {calls more : List Call}

theorem append (h : Fetches path calls) (hmore : ∀ call ∈ more, call.OnHandle) :
    Fetches path (calls ++ more) := by
  cases h with
  | opened hfirst hrest => exact .opened hfirst (List.forall_mem_append.mpr ⟨hrest, hmore⟩)

theorem reads (h : Fetches path calls) : ∀ call ∈ calls, call.Reads := by
  cases h with
  | opened hfirst hrest =>
      exact List.forall_mem_cons.mpr ⟨hfirst.reads, fun call hcall => (hrest call hcall).reads⟩

end Fetches

end Call

/-! ## What calls do to a storage -/

/-- What a call makes of the state of a storage. -/
inductive Storage.Carries (st : Storage σ κ) : Call → σ → σ → Prop where
  | stat (path : String) (s : σ) : Carries st (.stat path) s (st.stat path s).2
  | openFile (path : String) (mode : OpenMode) (permissions : Nat) (s : σ) :
      Carries st (.openFile path mode permissions) s (st.openFile path mode permissions s).2
  | openAt {openAt} (h : st.openAt? = some openAt) (path : String) (mode : OpenMode)
      (offset : Nat) (s : σ) : Carries st (.openAt path mode offset) s (openAt path mode offset s).2
  | readDir (path : String) (s : σ) : Carries st (.readDir path) s (st.readDir path s).2
  | chmod (path : String) (permissions : Nat) (s : σ) :
      Carries st (.chmod path permissions) s (st.chmod path permissions s).2
  | chown (path : String) (user : Nat) (group : Option Nat) (s : σ) :
      Carries st (.chown path user group) s (st.chown path user group s).2
  | symlink (target link : String) (s : σ) :
      Carries st (.symlink target link) s (st.symlink target link s).2
  | seek (handle : κ) (offset : Nat) (s : σ) :
      Carries st (.seek offset) s (st.seek handle offset s).2.2
  | read (handle : κ) (most : Nat) (s : σ) :
      Carries st (.read most) s (st.read handle most s).2.2
  | release (handle : κ) (s : σ) : Carries st .release s (st.release handle s)

/-- What calls one after the other make of the state of a storage. -/
inductive Storage.CarriesAll (st : Storage σ κ) : List Call → σ → σ → Prop where
  | nil (s : σ) : CarriesAll st [] s s
  | cons {call calls s t u} (h : st.Carries call s t) (hrest : CarriesAll st calls t u) :
      CarriesAll st (call :: calls) s u

namespace Storage

variable {st : Storage σ κ}

theorem CarriesAll.eq_of_nil {s t : σ} (h : st.CarriesAll [] s t) : t = s := by
  cases h
  rfl

theorem CarriesAll.append {front back : List Call} {s t u : σ} (h : st.CarriesAll front s t)
    (hback : st.CarriesAll back t u) : st.CarriesAll (front ++ back) s u := by
  induction h with
  | nil => exact hback
  | cons hcall _ ih => exact .cons hcall (ih hback)

/-- Whether what is seen of a storage stays as it is under calls that only read. -/
def ReadsKeep {α : Type} (st : Storage σ κ) (view : σ → α) : Prop :=
  ∀ call s t, call.Reads → st.Carries call s t → view t = view s

theorem CarriesAll.view_eq {α : Type} {view : σ → α} (hkeep : st.ReadsKeep view)
    {calls : List Call} {s t : σ} (h : st.CarriesAll calls s t)
    (hreads : ∀ call ∈ calls, call.Reads) : view t = view s := by
  induction h with
  | nil => rfl
  | cons hcall _ ih =>
      rw [List.forall_mem_cons] at hreads
      exact (ih hreads.2).trans (hkeep _ _ _ hreads.1 hcall)

/-- Whether what is seen of a storage stays as it is under changes that fail. -/
structure FailuresKeep {α : Type} (st : Storage σ κ) (view : σ → α) : Prop where
  chmod : ∀ {path permissions s f t},
    st.chmod path permissions s = (.error f, t) → view t = view s
  chown : ∀ {path user group s f t},
    st.chown path user group s = (.error f, t) → view t = view s
  symlink : ∀ {target link s f t}, st.symlink target link s = (.error f, t) → view t = view s

end Storage

/-! ## What was asked -/

/-- The call that an event is. -/
def Event.call? : Event → Option Call
  | .asked call => some call
  | _ => none

namespace Ledger

/-- What was asked of the storage so far, call by call. -/
def calls (l : Ledger σ) : List Call := l.journal.toList.filterMap Event.call?

/-- Whether a ledger has come from another by asking these calls, whatever was written and logged
between them. -/
structure Asks (st : Storage σ κ) (l : Ledger σ) (asked : List Call) (m : Ledger σ) : Prop where
  calls : m.calls = l.calls ++ asked
  carried : st.CarriesAll asked l.store m.store

variable {st : Storage σ κ} {l m n : Ledger σ} {asked more : List Call}

theorem Asks.refl (st : Storage σ κ) (l : Ledger σ) : l.Asks st [] l :=
  ⟨(List.append_nil _).symm, .nil _⟩

theorem Asks.trans (h : l.Asks st asked m) (hmore : m.Asks st more n) :
    l.Asks st (asked ++ more) n :=
  ⟨by rw [hmore.calls, h.calls, List.append_assoc], h.carried.append hmore.carried⟩

theorem Asks.store_eq (h : l.Asks st [] m) : m.store = l.store := h.carried.eq_of_nil

/-- Whether a ledger has come from another by writing and logging alone. -/
structure Quiet (l m : Ledger σ) : Prop where
  store : m.store = l.store
  journal : ∃ events, m.journal.toList = l.journal.toList ++ events ∧
    ∀ e ∈ events, e.call? = none

theorem Quiet.refl (l : Ledger σ) : l.Quiet l := ⟨rfl, [], by simp⟩

theorem Quiet.trans (h : l.Quiet m) (hmore : m.Quiet n) : l.Quiet n := by
  obtain ⟨hm, events, hevents, hno⟩ := h
  obtain ⟨hn, more, hadded, hnone⟩ := hmore
  refine ⟨hn.trans hm, events ++ more, ?_, List.forall_mem_append.mpr ⟨hno, hnone⟩⟩
  rw [hadded, hevents, List.append_assoc]

theorem Quiet.asks (st : Storage σ κ) (h : l.Quiet m) : l.Asks st [] m := by
  obtain ⟨hstore, events, hevents, hno⟩ := h
  refine ⟨?_, hstore ▸ .nil _⟩
  rw [Ledger.calls, hevents, List.filterMap_append, List.filterMap_eq_nil_iff.mpr hno]
  rfl

/-- What is written and logged after some calls asks nothing more. -/
theorem Asks.quiet (h : l.Asks st asked m) (hquiet : m.Quiet n) : l.Asks st asked n :=
  List.append_nil asked ▸ h.trans (hquiet.asks st)

theorem quiet_note (l : Ledger σ) {e : Event} (h : e.call? = none) : l.Quiet (l.note e) :=
  ⟨rfl, [e], by simp [note], by simpa using h⟩

theorem quiet_log (l : Ledger σ) (level : LogLevel) (text : String) :
    l.Quiet (l.log level text) := l.quiet_note rfl

theorem quiet_wrote (l : Ledger σ) (via : Protection) (bytes : List UInt8) :
    l.Quiet (l.note (.wrote via bytes)) := l.quiet_note rfl

theorem quiet_logSent (text : String) (l : Ledger σ) : l.Quiet (Channel.logSent text l) := by
  unfold Channel.logSent
  induction Text.lines text generalizing l with
  | nil => exact .refl l
  | cons line lines ih => exact (l.quiet_log .trace ("<<< " ++ line)).trans (ih _)

end Ledger

end FtpControl

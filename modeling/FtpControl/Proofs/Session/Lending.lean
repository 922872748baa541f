import FtpControl.Proofs.Session.Journals
import FtpControl.Proofs.Session.Restraint
import FtpControl.Proofs.Storage.RangeBounds

/-!
# Handles in a session

Commands for digests open files among commands that do not. Each gives back what it was given before
its reply goes out, so that between any two steps of a run no handle is out.
-/

namespace FtpControl

variable {σ κ : Type}

/-- Whether a ledger goes on from another with all that it asks of the storage, and every handle
given back, before it writes anything. -/
inductive Ledger.Settles (st : Storage σ κ) (l m : Ledger σ) : Prop where
  | intro (front back : List Event)
      (hjournal : m.journal.toList = l.journal.toList ++ front ++ back)
      (hfront : ∀ e ∈ front, e.written? = none) (hback : ∀ e ∈ back, e.call? = none)
      (hlends : l.Lends st none (front.filterMap Event.call?) m none) : Settles st l m

namespace Ledger.Settles

variable {st : Storage σ κ} {l m n : Ledger σ}

theorem lends (h : l.Settles st m) : ∃ asked, l.Lends st none asked m none := by
  cases h with
  | intro _ _ _ _ _ hlends => exact ⟨_, hlends⟩

theorem of_quiet (h : l.Quiet m) : l.Settles st m := by
  obtain ⟨events, hevents, hno⟩ := h.journal
  exact .intro [] events (by rw [hevents, List.append_nil]) (by simp) hno (h.lends st none)

theorem quiet (h : l.Settles st m) (hquiet : m.Quiet n) : l.Settles st n := by
  obtain ⟨events, hevents, hno⟩ := hquiet.journal
  cases h with
  | intro front back hjournal hfront hback hlends =>
      refine .intro front (back ++ events) ?_ hfront ?_ (hlends.quiet hquiet)
      · rw [hevents, hjournal, List.append_assoc, List.append_assoc]
      · exact List.forall_mem_append.mpr ⟨hback, hno⟩

theorem of_log {level : LogLevel} {text : String} (h : (l.log level text).Settles st m) :
    l.Settles st m := by
  cases h with
  | intro front back hjournal hfront hback hlends =>
      refine .intro (.logged level text :: front) back ?_ ?_ hback
        ((l.quiet_log level text).lends st none |>.trans hlends)
      · simpa [log, note] using hjournal
      · exact List.forall_mem_cons.mpr ⟨rfl, hfront⟩

end Ledger.Settles

/-- All that an answer asks is asked, and given back, with nothing written. -/
theorem Answer.settles_toCommand (host : Host σ κ) (command : Command) (secured : Bool)
    (profile : Profile) (l : Ledger σ) :
    l.Settles host.storage (toCommand host command secured profile l).ledger := by
  -- What the answer adds to the journal does not depend on what stands there.
  have hadded : (toCommand host command secured profile l).ledger.journal.toList =
      l.journal.toList ++
        (toCommand host command secured profile ⟨l.store, #[]⟩).ledger.journal.toList := by
    conv => lhs; rw [l.eq_behind, toCommand_behind]
    simp [behind, Ledger.behind]
  generalize (toCommand host command secured profile ⟨l.store, #[]⟩).ledger.journal.toList = added
    at hadded
  have hwritten := written_toCommand host command secured profile l
  obtain ⟨asked, hlends, -⟩ := lends_toCommand host command secured profile l
  have hcalls := hlends.calls
  rw [Ledger.written, Ledger.written, hadded, List.filterMap_append, List.append_right_eq_self]
    at hwritten
  rw [Ledger.calls, Ledger.calls, hadded, List.filterMap_append, List.append_cancel_left_eq]
    at hcalls
  refine .intro added [] ?_ (List.filterMap_eq_nil_iff.mp hwritten) (by simp)
    (hcalls ▸ hlends)
  rw [hadded, List.append_nil]

/-! ## Runs -/

namespace Run

variable {host : Host σ κ} {r next : Run σ}

theorem settles_of_step (h : Step host r next) :
    r.session.ledger.Settles host.storage next.session.ledger := by
  rcases quiet_step h with ⟨-, hquiet⟩ | ⟨command, s, -, -, ⟨level, text, hheard⟩, hafter⟩
  · exact .of_quiet hquiet
  · have hanswered : s.ledger.Settles host.storage (s.answered host command).ledger :=
      Answer.settles_toCommand host command s.channel.isSecure s.profile s.ledger
    rw [hheard] at hanswered
    exact (hanswered.quiet hafter).of_log

/-- From the start of a run on, no handle is out between its steps. -/
theorem lends_of_reaches {channel : Channel} {store : σ} {lines : List (List UInt8)}
    (h : Reaches host ⟨.greeting, { channel, ledger := { store } }⟩ lines r) :
    (⟨store, #[]⟩ : Ledger σ).Lends host.storage none r.session.ledger.calls r.session.ledger
      none := by
  refine h.invariant (P := fun r => (⟨store, #[]⟩ : Ledger σ).Lends host.storage none
    r.session.ledger.calls r.session.ledger none) ?_ ?_
  · intro r next hstep hr
    obtain ⟨asked, hasked⟩ := (settles_of_step (step_eq_some_iff.mp hstep)).lends
    rw [hasked.calls]
    exact hr.trans hasked
  · exact .refl ..

/-- The digest of a range that ends before it starts asks nothing. Any other opens its file once,
for reading only, and gives the handle back as the last thing that it does with it, unless there was
none to be had. So a step of a run gives back all that it was given before it writes, and along any
run as many handles are given back as were given out. -/
theorem handles_given_back (host : Host σ κ) :
    (∀ path a (range : ByteRange) (l : Ledger σ),
      (range.stop < range.start → (Checksum.ofRange host.storage path a range l).2 = l) ∧
      (range.start ≤ range.stop → ∃ calls,
        l.Lends host.storage none calls (Checksum.ofRange host.storage path a range l).2 none ∧
          Checksum.Course host.storage path range.start l.store calls)) ∧
    (∀ r next : Run σ, r.step host = some next →
      r.session.ledger.Settles host.storage next.session.ledger) ∧
    ∀ (channel : Channel) (store : σ) lines last,
      Reaches host ⟨.greeting, { channel, ledger := { store } }⟩ lines last →
        ∃ n, Loans.carryAll host.storage last.session.ledger.calls { store } =
          some ⟨last.session.ledger.store, none, n, n⟩ := by
  refine ⟨fun path a range l => ⟨fun hback => ?_, fun horder => ?_⟩, fun r next hstep => ?_,
    fun channel store lines last hreaches => ?_⟩
  · rw [Checksum.ofRange_of_stop_lt hback]
  · exact Checksum.lends_ofRange host.storage path a horder l
  · exact settles_of_step (step_eq_some_iff.mp hstep)
  · obtain ⟨b, hcarry, hstore, hout⟩ := (lends_of_reaches hreaches).carried { store } rfl rfl
    have hbalanced : b.Balanced := (Loans.carryAll_spec hcarry).2 rfl
    obtain ⟨s, out, opened, released⟩ := b
    obtain rfl : s = last.session.ledger.store := hstore
    obtain rfl : out = none := hout
    obtain rfl : opened = released := hbalanced
    exact ⟨opened, hcarry⟩

/-- A file that can be read for three bytes only, asked for in a session and without one. -/
theorem handles_given_back_unread :
    let host := { Host.bare (.ok ()) with settings := { enableHash := true } }
    let entry : MemoryEntry :=
      { path := "a", info := { name := "a", kind := .file, size := 5 }
        data := [104, 101, 108, 108, 111], failAt := some 3 }
    let l : Ledger MemoryStore := { store := [entry] }
    let inlet : Inlet := ⟨Text.bytes "HASH a\r\n", [.finish true]⟩
    let r : Run MemoryStore := ⟨.greeting, { channel := { inlet }, ledger := l }⟩
    (Checksum.ofRange host.storage "a" .crc32 ⟨4, 2⟩ l).2 = l ∧
      (∃ calls, l.Lends host.storage none calls
        (Checksum.ofRange host.storage "a" .crc32 ⟨2, 4⟩ l).2 none ∧
          Checksum.Course host.storage "a" 2 l.store calls) ∧
      l.Settles host.storage (greet host r.session).session.ledger ∧
      ∃ n, Loans.carryAll host.storage (r.advance host).session.ledger.calls { store := l.store } =
        some ⟨(r.advance host).session.ledger.store, none, n, n⟩ := by
  intro host entry l inlet r
  obtain ⟨hdigest, hstep, hrun⟩ := handles_given_back host
  obtain ⟨hback, -⟩ := hdigest "a" .crc32 ⟨4, 2⟩ l
  obtain ⟨-, hforth⟩ := hdigest "a" .crc32 ⟨2, 4⟩ l
  exact ⟨hback (by decide), hforth (by decide), hstep r _ rfl,
    hrun { inlet } [entry] _ _ (reaches_advance host r)⟩

end Run

end FtpControl

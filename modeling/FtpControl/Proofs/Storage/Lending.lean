import FtpControl.Proofs.Storage.Calls
import FtpControl.Proofs.Storage.RangeCauses

/-!
# Handles out and back

A storage gives out a handle with every file that it opens, and wants it back. The calls that were
asked of it tell which handle is out at any time: each call that is made on a handle is replayed on
the one that is out, and the replay stops at a call that has none to go to.
-/

namespace FtpControl

variable {σ κ : Type}

/-! ## Keeping track of handles -/

/-- The state of a storage, the handle that is out, and how many were given out and given back. -/
structure Loans (σ κ : Type) where
  store : σ
  out : Option κ := none
  opened : Nat := 0
  released : Nat := 0

namespace Loans

/-- The state after a file was opened, or was not. -/
def opening (b : Loans σ κ) : Except Failure κ × σ → Loans σ κ
  | (.ok handle, store) => { b with store, out := some handle, opened := b.opened + 1 }
  | (.error _, store) => { b with store }

theorem opening_spec {b : Loans σ κ} (hout : b.out = none) (answer : Except Failure κ × σ) :
    (b.opening answer).store = answer.2 ∧ (b.opening answer).out = answer.1.toOption := by
  rcases answer with ⟨f | handle, s⟩
  · exact ⟨rfl, hout⟩
  · exact ⟨rfl, rfl⟩

/-- What one call comes to. A file is opened only while no handle is out, and a call on a handle
goes to the one that is out; any other order of calls comes to nothing. -/
def carry (st : Storage σ κ) (call : Call) (b : Loans σ κ) : Option (Loans σ κ) :=
  match call, b.out with
  | .stat path, _ => some { b with store := (st.stat path b.store).2 }
  | .readDir path, _ => some { b with store := (st.readDir path b.store).2 }
  | .chmod path permissions, _ => some { b with store := (st.chmod path permissions b.store).2 }
  | .chown path user group, _ => some { b with store := (st.chown path user group b.store).2 }
  | .symlink target link, _ => some { b with store := (st.symlink target link b.store).2 }
  | .openFile path mode permissions, none =>
      some (b.opening (st.openFile path mode permissions b.store))
  | .openAt path mode offset, none =>
      st.openAt?.map fun openAt => b.opening (openAt path mode offset b.store)
  | .seek offset, some handle =>
      let (_, handle, store) := st.seek handle offset b.store
      some { b with store, out := some handle }
  | .read most, some handle =>
      let (_, handle, store) := st.read handle most b.store
      some { b with store, out := some handle }
  | .release, some handle =>
      some { b with
        store := st.release handle b.store
        out := none
        released := b.released + 1 }
  | _, _ => none

/-- What calls one after the other come to. -/
def carryAll (st : Storage σ κ) (calls : List Call) (b : Loans σ κ) : Option (Loans σ κ) :=
  calls.foldlM (fun b call => b.carry st call) b

variable {st : Storage σ κ} {b b' : Loans σ κ}

theorem carryAll_append (front back : List Call) (b : Loans σ κ) :
    b.carryAll st (front ++ back) = (b.carryAll st front).bind (carryAll st back) :=
  List.foldlM_append

/-- Whether every handle that was given out was given back, but for the one that is out. -/
def Balanced (b : Loans σ κ) : Prop := b.opened = b.released + b.out.toList.length

theorem Balanced.opening (h : b.Balanced) (hout : b.out = none) (answer : Except Failure κ × σ) :
    (b.opening answer).Balanced := by
  rcases answer with ⟨f | handle, store⟩
  · exact h
  · have hall : b.opened = b.released := by simpa [Balanced, hout] using h
    show b.opened + 1 = b.released + 1
    rw [hall]

/-- All that a call can come to. -/
inductive Carried (st : Storage σ κ) (b : Loans σ κ) (call : Call) : Loans σ κ → Prop where
  | aside {t} (h : st.Carries call b.store t) : Carried st b call { b with store := t }
  | opened {answer} (hout : b.out = none) (h : st.Carries call b.store answer.2) :
      Carried st b call (b.opening answer)
  | used {handle next t} (hout : b.out = some handle) (h : st.Carries call b.store t) :
      Carried st b call { b with store := t, out := some next }
  | released {handle t} (hout : b.out = some handle) (h : st.Carries call b.store t) :
      Carried st b call { b with store := t, out := none, released := b.released + 1 }

theorem carried_of_carry {call : Call} (h : b.carry st call = some b') :
    Carried st b call b' := by
  cases call with
  | stat path => exact Option.some.inj h ▸ .aside (.stat path _)
  | readDir path => exact Option.some.inj h ▸ .aside (.readDir path _)
  | chmod path permissions => exact Option.some.inj h ▸ .aside (.chmod path permissions _)
  | chown path user group => exact Option.some.inj h ▸ .aside (.chown path user group _)
  | symlink target link => exact Option.some.inj h ▸ .aside (.symlink target link _)
  | openFile path mode permissions =>
      cases hout : b.out with
      | some handle => simp [carry, hout] at h
      | none =>
          simp only [carry, hout, Option.some.injEq] at h
          exact h ▸ .opened hout (.openFile path mode permissions _)
  | openAt path mode offset =>
      cases hout : b.out with
      | some handle => simp [carry, hout] at h
      | none =>
          simp only [carry, hout, Option.map_eq_some_iff] at h
          obtain ⟨openAt, hoffers, rfl⟩ := h
          exact .opened hout (.openAt hoffers path mode offset _)
  | seek offset =>
      cases hout : b.out with
      | none => simp [carry, hout] at h
      | some handle =>
          simp only [carry, hout, Option.some.injEq] at h
          exact h ▸ .used hout (.seek handle offset _)
  | read most =>
      cases hout : b.out with
      | none => simp [carry, hout] at h
      | some handle =>
          simp only [carry, hout, Option.some.injEq] at h
          exact h ▸ .used hout (.read handle most _)
  | release =>
      cases hout : b.out with
      | none => simp [carry, hout] at h
      | some handle =>
          simp only [carry, hout, Option.some.injEq] at h
          exact h ▸ .released hout (.release handle _)

theorem Carried.carries {call : Call} (h : Carried st b call b') :
    st.Carries call b.store b'.store := by
  cases h with
  | aside h => exact h
  | @opened answer hout h =>
      rw [(opening_spec hout answer).1]
      exact h
  | used _ h => exact h
  | released _ h => exact h

theorem Carried.balanced {call : Call} (h : Carried st b call b') (hb : b.Balanced) :
    b'.Balanced := by
  cases h with
  | aside => exact hb
  | opened hout => exact hb.opening hout _
  | used hout => simpa [Balanced, hout] using hb
  | released hout => simpa [Balanced, hout] using hb

/-- What calls come to, they come to call by call. -/
theorem carryAll_spec {calls : List Call} (h : b.carryAll st calls = some b') :
    st.CarriesAll calls b.store b'.store ∧ (b.Balanced → b'.Balanced) := by
  induction calls generalizing b with
  | nil =>
      obtain rfl := Option.some.inj h
      exact ⟨.nil _, id⟩
  | cons call calls ih =>
      obtain ⟨next, hcall, hrest⟩ := Option.bind_eq_some_iff.mp h
      have hcarried := carried_of_carry hcall
      obtain ⟨hcarries, hbalanced⟩ := ih hrest
      exact ⟨.cons hcarried.carries hcarries, fun hb => hbalanced (hcarried.balanced hb)⟩

end Loans

/-! ## Ledgers -/

namespace Ledger

/-- Whether a ledger has come from another by asking these calls, each call on a handle made on the
one that was out, with the handles that are out before and afterwards. -/
structure Lends (st : Storage σ κ) (l : Ledger σ) (out : Option κ) (asked : List Call)
    (m : Ledger σ) (left : Option κ) : Prop where
  calls : m.calls = l.calls ++ asked
  carried : ∀ b : Loans σ κ, b.store = l.store → b.out = out →
    ∃ b', b.carryAll st asked = some b' ∧ b'.store = m.store ∧ b'.out = left

variable {st : Storage σ κ} {l m n : Ledger σ} {asked more : List Call} {out left last : Option κ}

theorem Lends.trans (h : l.Lends st out asked m left) (hmore : m.Lends st left more n last) :
    l.Lends st out (asked ++ more) n last where
  calls := by rw [hmore.calls, h.calls, List.append_assoc]
  carried b hstore hout := by
    obtain ⟨b₁, hfirst, hstore₁, hout₁⟩ := h.carried b hstore hout
    obtain ⟨b₂, hsecond, hend⟩ := hmore.carried b₁ hstore₁ hout₁
    refine ⟨b₂, ?_, hend⟩
    rw [Loans.carryAll_append, hfirst, Option.bind_some, hsecond]

/-- One call, by what it comes to. -/
theorem lends_ask {α : Type} {call : Call} {request : σ → α × σ}
    (h : ∀ b : Loans σ κ, b.store = l.store → b.out = out → ∃ b', b.carry st call = some b' ∧
      b'.store = (request l.store).2 ∧ b'.out = left) :
    l.Lends st out [call] (l.ask call request).2 left where
  calls := by simp [Ledger.calls, ask, Event.call?]
  carried b hstore hout := by
    obtain ⟨b', hcarry, hend⟩ := h b hstore hout
    refine ⟨b', ?_, hend⟩
    rw [Loans.carryAll, List.foldlM_cons, hcarry]
    rfl

/-- What was asked, whatever was done with handles. -/
theorem Lends.asks (h : l.Lends st out asked m left) : l.Asks st asked m where
  calls := h.calls
  carried := by
    obtain ⟨b', hcarry, hstore, -⟩ := h.carried { store := l.store, out } rfl rfl
    exact hstore ▸ (Loans.carryAll_spec hcarry).1

theorem Quiet.lends (h : l.Quiet m) (st : Storage σ κ) (out : Option κ) :
    l.Lends st out [] m out where
  calls := (h.asks st).calls
  carried b hstore hout := ⟨b, rfl, hstore.trans h.store.symm, hout⟩

theorem Lends.quiet (h : l.Lends st out asked m left) (hquiet : m.Quiet n) :
    l.Lends st out asked n left := List.append_nil asked ▸ h.trans (hquiet.lends st left)

theorem Lends.refl (st : Storage σ κ) (l : Ledger σ) (out : Option κ) : l.Lends st out [] l out :=
  (Quiet.refl l).lends st out

variable (st) (l)

theorem lends_stat (out : Option κ) (path : String) :
    l.Lends st out [.stat path] (l.stat st path).2 out :=
  lends_ask fun b hstore hout => ⟨_, rfl, by rw [hstore], hout⟩

theorem lends_readDir (out : Option κ) (path : String) :
    l.Lends st out [.readDir path] (l.readDir st path).2 out :=
  lends_ask fun b hstore hout => ⟨_, rfl, by rw [hstore], hout⟩

theorem lends_chmod (out : Option κ) (path : String) (permissions : Nat) :
    l.Lends st out [.chmod path permissions] (l.chmod st path permissions).2 out :=
  lends_ask fun b hstore hout => ⟨_, rfl, by rw [hstore], hout⟩

theorem lends_chown (out : Option κ) (path : String) (user : Nat) (group : Option Nat) :
    l.Lends st out [.chown path user group] (l.chown st path user group).2 out :=
  lends_ask fun b hstore hout => ⟨_, rfl, by rw [hstore], hout⟩

theorem lends_symlink (out : Option κ) (target link : String) :
    l.Lends st out [.symlink target link] (l.symlink st target link).2 out :=
  lends_ask fun b hstore hout => ⟨_, rfl, by rw [hstore], hout⟩

theorem lends_openFile (path : String) (mode : OpenMode) (permissions : Nat) :
    l.Lends st none [.openFile path mode permissions] (l.openFile st path mode permissions).2
      (l.openFile st path mode permissions).1.toOption := by
  refine lends_ask fun b hstore hout =>
    ⟨b.opening (st.openFile path mode permissions l.store), ?_, Loans.opening_spec hout _⟩
  simp only [Loans.carry, hout, hstore]

theorem lends_openAt {openAt : String → OpenMode → Nat → σ → Except Failure κ × σ}
    (hoffers : st.openAt? = some openAt) (path : String) (mode : OpenMode) (offset : Nat) :
    l.Lends st none [.openAt path mode offset]
      (l.ask (.openAt path mode offset) (openAt path mode offset)).2
      (l.ask (.openAt path mode offset) (openAt path mode offset)).1.toOption := by
  refine lends_ask fun b hstore hout =>
    ⟨b.opening (openAt path mode offset l.store), ?_, Loans.opening_spec hout _⟩
  simp only [Loans.carry, hout, hstore, hoffers, Option.map_some]

theorem lends_seek (handle : κ) (offset : Nat) :
    l.Lends st (some handle) [.seek offset] (l.seek st handle offset).2
      (some (l.seek st handle offset).1.2) := by
  refine lends_ask fun b hstore hout =>
    ⟨{ b with
        store := (st.seek handle offset l.store).2.2
        out := some (st.seek handle offset l.store).2.1 }, ?_, rfl, rfl⟩
  simp only [Loans.carry, hout, hstore]

theorem lends_read (handle : κ) (most : Nat) :
    l.Lends st (some handle) [.read most] (l.read st handle most).2
      (some (l.read st handle most).1.2) := by
  refine lends_ask fun b hstore hout =>
    ⟨{ b with
        store := (st.read handle most l.store).2.2
        out := some (st.read handle most l.store).2.1 }, ?_, rfl, rfl⟩
  simp only [Loans.carry, hout, hstore]

theorem lends_release (handle : κ) :
    l.Lends st (some handle) [.release] (l.release st handle) none := by
  refine lends_ask fun b hstore hout =>
    ⟨{ b with
        store := st.release handle l.store
        out := none
        released := b.released + 1 }, ?_, rfl, rfl⟩
  simp only [Loans.carry, hout, hstore]

end Ledger

/-! ## Digests -/

namespace Checksum

/-- The call that opens a file for a range: at its start, where the storage offers that. -/
def opening (st : Storage σ κ) (path : String) (start : Nat) : Call :=
  if st.openAt?.isSome then .openAt path .readOnly start else .openFile path .readOnly 0o777

/-- The calls that move a handle to the start of a range. -/
def moves (st : Storage σ κ) (start : Nat) : List Call :=
  if st.openAt?.isSome ∨ start = 0 then [] else [.seek start]

/-- The calls of a digest, in order. A file that cannot be opened is left at that; any other is read
from the start of the range on, and its handle given back at the end. -/
inductive Course (st : Storage σ κ) (path : String) (start : Nat) (s : σ) : List Call → Prop where
  | refused {f} (h : st.Refuses path start s f) : Course st path start s [opening st path start]
  | read {reads} (h : ∀ f, ¬ st.Refuses path start s f)
      (hreads : ∀ call ∈ reads, ∃ most, call = .read most) :
      Course st path start s (opening st path start :: (moves st start ++ reads ++ [.release]))

theorem opens_opening (st : Storage σ κ) (path : String) (start : Nat) :
    (opening st path start).Opens path := by
  unfold opening
  split <;> exact ⟨rfl, rfl⟩

/-- Every course opens its file once, for reading only. -/
theorem Course.fetches {st : Storage σ κ} {path : String} {start : Nat} {s : σ}
    {calls : List Call} (h : Course st path start s calls) : Call.Fetches path calls := by
  cases h with
  | refused => exact .opened (opens_opening ..) (by simp)
  | @read reads _ hreads =>
      have hread : ∀ call ∈ reads, call.OnHandle := by
        intro call hcall
        obtain ⟨most, rfl⟩ := hreads call hcall
        trivial
      have hmoved : ∀ call ∈ moves st start, call.OnHandle := by
        unfold moves
        split <;> simp [Call.OnHandle]
      refine .opened (opens_opening ..) ?_
      rw [List.forall_mem_append, List.forall_mem_append]
      exact ⟨⟨hmoved, hread⟩, by simp [Call.OnHandle]⟩

/-- What opening a file for a range comes to: a handle that is out, or a failure and none. -/
inductive Opened (st : Storage σ κ) (path : String) (start : Nat) (l : Ledger σ) :
    Except Failure κ × Ledger σ → Prop where
  | refused {f m} (h : st.Refuses path start l.store f)
      (hlends : l.Lends st none [opening st path start] m none) :
      Opened st path start l (.error f, m)
  /-- The handle could not be moved and was given back. -/
  | unmoved {f m} (h : ∀ f, ¬ st.Refuses path start l.store f)
      (hlends : l.Lends st none (opening st path start :: (moves st start ++ [.release])) m none) :
      Opened st path start l (.error f, m)
  | ready {handle m} (h : ∀ f, ¬ st.Refuses path start l.store f)
      (hlends : l.Lends st none (opening st path start :: moves st start) m (some handle)) :
      Opened st path start l (.ok handle, m)

theorem opened_of_offers {st : Storage σ κ}
    {openAt : String → OpenMode → Nat → σ → Except Failure κ × σ}
    (hoffers : st.openAt? = some openAt) (path : String) (start : Nat) (l : Ledger σ) :
    Opened st path start l
      (l.ask (.openAt path .readOnly start) (openAt path .readOnly start)) := by
  have hlends := l.lends_openAt st hoffers path .readOnly start
  have hopening : opening st path start = .openAt path .readOnly start := by
    simp [opening, hoffers]
  have hmoves : moves st start = [] := by simp [moves, hoffers]
  rcases hopen : l.ask (.openAt path .readOnly start) (openAt path .readOnly start) with
    ⟨f | handle, m⟩
  · rw [hopen, ← hopening] at hlends
    exact .refused (.direct hoffers (Ledger.ask_spec hopen)) hlends
  · rw [hopen, ← hopening] at hlends
    exact .ready (Storage.not_refuses_of_openAt hoffers (Ledger.ask_spec hopen))
      (hmoves ▸ hlends)

theorem opened_openRange (st : Storage σ κ) (path : String) (start : Nat) (l : Ledger σ) :
    Opened st path start l (openRange st path start l) := by
  unfold openRange
  cases hoffers : st.openAt? with
  | some openAt => exact opened_of_offers hoffers path start l
  | none =>
      have hlends := l.lends_openFile st path .readOnly 0o777
      have hopening : opening st path start = .openFile path .readOnly 0o777 := by
        simp [opening, hoffers]
      rcases hopen : l.openFile st path .readOnly 0o777 with ⟨f | handle, m⟩
      · rw [hopen, ← hopening] at hlends
        exact .refused (.generic hoffers (Ledger.ask_spec hopen)) hlends
      · rw [hopen, ← hopening] at hlends
        have hopens : ∀ f, ¬ st.Refuses path start l.store f :=
          Storage.not_refuses_of_openFile hoffers (Ledger.ask_spec hopen)
        by_cases hstart : start = 0
        · have hmoves : moves st start = [] := by simp [moves, hstart]
          simp only [if_pos hstart]
          exact .ready hopens (hmoves ▸ hlends)
        · have hmoves : moves st start = [.seek start] := by simp [moves, hoffers, hstart]
          have hsought := m.lends_seek st handle start
          simp only [if_neg hstart]
          rcases hseek : m.seek st handle start with ⟨⟨fault | _, moved⟩, n⟩
          · rw [hseek, ← hmoves] at hsought
            exact .unmoved hopens (hlends.trans (hsought.trans (n.lends_release st moved)))
          · rw [hseek, ← hmoves] at hsought
            exact .ready hopens (hlends.trans hsought)

/-- Reading keeps the handle out. -/
theorem lends_stream (st : Storage σ κ) (total remaining : Nat) (handle : κ)
    (engine : DigestEngine) (l : Ledger σ) :
    ∃ reads, (∀ call ∈ reads, ∃ most, call = Call.read most) ∧
      l.Lends st (some handle) reads (stream st total remaining handle engine l).2.2
        (some (stream st total remaining handle engine l).2.1) := by
  fun_induction stream with
  | case1 => exact ⟨[], by simp, .refl st _ _⟩
  | case2 remaining handle engine l hne want fault h l' hr =>
      have hread := l.lends_read st handle want
      rw [hr] at hread
      exact ⟨_, by simp, hread⟩
  | case3 remaining handle engine l hne want bytes h l' hr ht =>
      have hread := l.lends_read st handle want
      rw [hr] at hread
      exact ⟨_, by simp, hread⟩
  | case4 remaining handle engine l hne want bytes h l' hr b bs ht ih =>
      have hread := l.lends_read st handle want
      rw [hr] at hread
      obtain ⟨reads, hreads, hrest⟩ := ih
      exact ⟨_, by simpa using hreads, hread.trans hrest⟩

/-- A digest leaves no handle out, and asks for nothing but its file. -/
theorem lends_ofRange (st : Storage σ κ) (path : String) (a : HashAlgorithm) {range : ByteRange}
    (horder : range.start ≤ range.stop) (l : Ledger σ) :
    ∃ calls, l.Lends st none calls (ofRange st path a range l).2 none ∧
      Course st path range.start l.store calls := by
  have hopened := opened_openRange st path range.start l
  rw [ofRange, if_neg (Nat.not_lt.mpr horder)]
  generalize openRange st path range.start l = answer at hopened ⊢
  cases hopened with
  | refused h hlends => exact ⟨_, hlends, .refused h⟩
  | unmoved h hlends => exact ⟨_, hlends, List.append_nil (moves _ _) ▸ .read h (by simp)⟩
  | @ready handle m h hlends =>
      obtain ⟨reads, hreads, hread⟩ := lends_stream st (range.stop - range.start)
        (range.stop - range.start) handle (.start a) m
      refine ⟨_, ?_, .read h hreads⟩
      rw [← List.cons_append, ← List.cons_append]
      exact (hlends.trans hread).trans (Ledger.lends_release ..)

end Checksum

end FtpControl

import FtpControl.Session.Respond

/-!
# What answers have in common

An answer writes nothing by itself. Only one verb has the session end after its reply, and only one
has a handshake follow, on a channel that is not under TLS when TLS is set up.
-/

namespace FtpControl

/-! ## Verbs -/

namespace Verb

theorem mem_table_of_ofUpper {enableHash : Bool} {word : String} {v : Verb} (hv : v ≠ unknown)
    (h : ofUpper enableHash word = v) : (word, v) ∈ table enableHash := by
  unfold ofUpper at h
  cases hl : (table enableHash).lookup word with
  | none =>
      rw [hl] at h
      exact absurd h.symm hv
  | some w =>
      rw [hl] at h
      obtain rfl : w = v := h
      obtain ⟨before, after, happ, -⟩ := List.lookup_eq_some_iff.mp hl
      rw [happ]
      exact List.mem_append_right before List.mem_cons_self

/-- A verb that has one name is meant by that name alone. -/
theorem ofText_eq_iff {v : Verb} {name : String} (hv : v ≠ unknown)
    (hname : ∀ enableHash, ∀ p ∈ table enableHash, p.2 = v → p.1 = name)
    (hlookup : ∀ enableHash, ofUpper enableHash name = v) (enableHash : Bool) (word : String) :
    ofText enableHash word = v ↔ Text.upper word = name := by
  constructor
  · intro h
    exact hname enableHash _ (mem_table_of_ofUpper hv h) rfl
  · intro h
    rw [ofText, h, hlookup]

/-- Every verb that is always understood has one name. -/
theorem ofText_eq_basic_iff {name : String} {v : Verb} (h : (name, v) ∈ basic)
    (enableHash : Bool) (word : String) :
    ofText enableHash word = v ↔ Text.upper word = name := by
  have hknown : ∀ p ∈ basic, p.2 ≠ unknown := by decide
  have hname : ∀ p ∈ basic, ∀ enableHash, ∀ q ∈ table enableHash, q.2 = p.2 → q.1 = p.1 := by
    decide
  have hlookup : ∀ p ∈ basic, ∀ enableHash, ofUpper enableHash p.1 = p.2 := by decide
  exact ofText_eq_iff (hknown _ h) (hname _ h) (hlookup _ h) enableHash word

theorem ofText_eq_auth_iff (enableHash : Bool) (word : String) :
    ofText enableHash word = auth ↔ Text.upper word = "AUTH" :=
  ofText_eq_basic_iff (by decide) enableHash word

theorem ofText_eq_quit_iff (enableHash : Bool) (word : String) :
    ofText enableHash word = quit ↔ Text.upper word = "QUIT" :=
  ofText_eq_basic_iff (by decide) enableHash word

theorem ofText_eq_stat_iff (enableHash : Bool) (word : String) :
    ofText enableHash word = stat ↔ Text.upper word = "STAT" :=
  ofText_eq_basic_iff (by decide) enableHash word

end Verb

/-! ## What was written -/

/-- The bytes that an event wrote, and how they were protected. -/
def Event.written? : Event → Option (Protection × List UInt8)
  | .wrote via bytes => some (via, bytes)
  | _ => none

namespace Ledger

variable {σ κ : Type}

/-- What was written so far, write by write. -/
def written (l : Ledger σ) : List (Protection × List UInt8) :=
  l.journal.toList.filterMap Event.written?

@[simp] theorem written_log (l : Ledger σ) (level : LogLevel) (text : String) :
    (l.log level text).written = l.written := by
  simp [written, log, note, Event.written?]

@[simp] theorem written_wrote (l : Ledger σ) (via : Protection) (bytes : List UInt8) :
    (l.note (.wrote via bytes)).written = l.written ++ [(via, bytes)] := by
  simp [written, note, Event.written?]

@[simp] theorem written_ask {α : Type} (l : Ledger σ) (call : Call) (request : σ → α × σ) :
    (l.ask call request).2.written = l.written := by
  simp [written, ask, Event.written?]

@[simp] theorem written_stat (st : Storage σ κ) (path : String) (l : Ledger σ) :
    (l.stat st path).2.written = l.written := written_ask ..

@[simp] theorem written_openFile (st : Storage σ κ) (path : String) (mode : OpenMode)
    (permissions : Nat) (l : Ledger σ) :
    (l.openFile st path mode permissions).2.written = l.written := written_ask ..

@[simp] theorem written_readDir (st : Storage σ κ) (path : String) (l : Ledger σ) :
    (l.readDir st path).2.written = l.written := written_ask ..

@[simp] theorem written_seek (st : Storage σ κ) (handle : κ) (offset : Nat) (l : Ledger σ) :
    (l.seek st handle offset).2.written = l.written := written_ask ..

@[simp] theorem written_read (st : Storage σ κ) (handle : κ) (most : Nat) (l : Ledger σ) :
    (l.read st handle most).2.written = l.written := written_ask ..

@[simp] theorem written_release (st : Storage σ κ) (handle : κ) (l : Ledger σ) :
    (l.release st handle).written = l.written := written_ask ..

end Ledger

/-! ## Messages -/

/-- Whether a reply is a message with a code of three digits. -/
def Reply.IsMessage (r : Reply) : Prop := ∃ code text, code < 1000 ∧ r = .message code text

theorem Reply.isMessage {code : Nat} (h : code < 1000) (text : String) :
    IsMessage (.message code text) := ⟨code, text, h, rfl⟩

namespace Ledger

variable {σ α : Type}

/-- Answering with a message, and writing nothing. -/
structure Answers (l : Ledger σ) (p : Reply × Ledger σ) : Prop where
  message : p.1.IsMessage
  written : p.2.written = l.written

/-- Giving what was asked for, or refusing it with a message, and writing nothing. -/
inductive Gives (l : Ledger σ) : Except Reply α × Ledger σ → Prop where
  | given {a m} (hw : m.written = l.written) : Gives l (.ok a, m)
  | refused {reply m} (hr : reply.IsMessage) (hw : m.written = l.written) :
      Gives l (.error reply, m)

variable {l m : Ledger σ}

theorem Answers.after {p : Reply × Ledger σ} (h : m.Answers p) (hw : m.written = l.written) :
    l.Answers p := ⟨h.message, h.written.trans hw⟩

theorem Gives.written {p : Except Reply α × Ledger σ} {a : α} (h : l.Gives p)
    (hp : p = (.ok a, m)) : m.written = l.written := by
  subst hp
  cases h with
  | given hw => exact hw

theorem Gives.answers {p : Except Reply α × Ledger σ} {reply : Reply} (h : l.Gives p)
    (hp : p = (.error reply, m)) : l.Answers (reply, m) := by
  subst hp
  cases h with
  | refused hr hw => exact ⟨hr, hw⟩

end Ledger

/-! ## Requests of the storage -/

section

variable {σ κ : Type} {l m : Ledger σ}

/-- What holds of the ledger after a request holds of the ledger that it gave. -/
theorem Ledger.written_of_eq {α : Type} {p : α × Ledger σ} {a : α}
    (hp : p.2.written = l.written) (h : p = (a, m)) : m.written = l.written := by
  rw [← hp, h]

theorem Checksum.written_stream (st : Storage σ κ) (total remaining : Nat) (handle : κ)
    (engine : DigestEngine) (l : Ledger σ) :
    (stream st total remaining handle engine l).2.2.written = l.written := by
  fun_induction stream with
  | case1 => rfl
  | case2 remaining handle engine l hne want fault h l' hr =>
      exact Ledger.written_of_eq (l.written_read st handle want) hr
  | case3 remaining handle engine l hne want bytes h l' hr ht =>
      exact Ledger.written_of_eq (l.written_read st handle want) hr
  | case4 remaining handle engine l hne want bytes h l' hr b bs ht ih =>
      exact ih.trans (Ledger.written_of_eq (l.written_read st handle want) hr)

theorem Checksum.written_openRange (st : Storage σ κ) (path : String) (start : Nat)
    (l : Ledger σ) : (openRange st path start l).2.written = l.written := by
  unfold openRange
  split
  · exact Ledger.written_ask ..
  · split
    · next f l' hf =>
        exact Ledger.written_of_eq (l.written_openFile st path .readOnly 0o777) hf
    · next handle l' ho =>
        have hopen := Ledger.written_of_eq (l.written_openFile st path .readOnly 0o777) ho
        split
        · exact hopen
        · split
          · next h l'' hs =>
              exact (Ledger.written_of_eq (l'.written_seek st handle start) hs).trans hopen
          · next fault h l'' hs =>
              rw [Ledger.written_release]
              exact (Ledger.written_of_eq (l'.written_seek st handle start) hs).trans hopen

theorem Checksum.written_ofRange (st : Storage σ κ) (path : String) (a : HashAlgorithm)
    (range : ByteRange) (l : Ledger σ) :
    (ofRange st path a range l).2.written = l.written := by
  unfold ofRange
  split
  · rfl
  · split
    · next f l' ho =>
        exact Ledger.written_of_eq (written_openRange st path range.start l) ho
    · next handle l' ho =>
        simp only [Ledger.written_release, written_stream]
        exact Ledger.written_of_eq (written_openRange st path range.start l) ho

theorem Digests.gives_regular (st : Storage σ κ) (path shown : String) (l : Ledger σ) :
    l.Gives (regular st path shown l) := by
  unfold regular
  split
  · next f l' hs =>
      have hstat := Ledger.written_of_eq (l.written_stat st path) hs
      exact .refused (Reply.isMessage (by decide) _) hstat
  · next info l' hs =>
      have hstat := Ledger.written_of_eq (l.written_stat st path) hs
      split
      · exact .given hstat
      · exact .refused (Reply.isMessage (by decide) _) hstat

theorem Digests.gives_digest (host : Host σ κ) (path : String) (a : HashAlgorithm)
    (range : ByteRange) (l : Ledger σ) : l.Gives (digest host path a range l) := by
  have hrange := Checksum.written_ofRange host.storage path a range l
  unfold digest
  split
  · next hex l' h => exact .given (Ledger.written_of_eq hrange h)
  · next f l' h =>
      refine .refused (Reply.isMessage (by decide) _) ?_
      rw [Ledger.written_log]
      exact Ledger.written_of_eq hrange h

theorem Digests.answers_ofWhole (host : Host σ κ) (a : HashAlgorithm) (path : String)
    (l : Ledger σ) : l.Answers (ofWhole host a path l) := by
  have hregular := gives_regular host.storage path path l
  unfold ofWhole
  split
  · next reply l' h => exact hregular.answers h
  · next info l' h =>
      have hdigest := gives_digest host path a ⟨0, info.size⟩ l'
      split
      · next reply l'' hd => exact (hdigest.answers hd).after (hregular.written h)
      · next hex l'' hd =>
          exact ⟨Reply.isMessage (by decide) _, (hdigest.written hd).trans (hregular.written h)⟩

theorem Digests.answers_ofBounds (host : Host σ κ) (a : HashAlgorithm) (param : String)
    (l : Ledger σ) : l.Answers (ofBounds host a param l) := by
  have hregular := gives_regular host.storage (pathAndBounds param).1 param l
  unfold ofBounds
  simp only
  split
  · next reply l' h => exact hregular.answers h
  · next info l' h =>
      split
      · exact ⟨Reply.isMessage (by decide) _, hregular.written h⟩
      · next range _ =>
          have hdigest := gives_digest host (pathAndBounds param).1 a range l'
          split
          · next reply l'' hd => exact (hdigest.answers hd).after (hregular.written h)
          · next hex l'' hd =>
              have hw := (hdigest.written hd).trans (hregular.written h)
              exact ⟨Reply.isMessage (by decide) _, hw⟩

theorem SiteRequest.written_perform (st : Storage σ κ) (request : SiteRequest)
    (l : Ledger σ) : (request.perform st l).2.written = l.written := by
  cases request <;> exact Ledger.written_ask ..

theorem SiteRequest.answers_answer (host : Host σ κ) (request : SiteRequest) (l : Ledger σ) :
    l.Answers (request.answer host l) := by
  have hperform := request.written_perform host.storage l
  unfold answer
  simp only
  split
  · next l' h => exact ⟨Reply.isMessage (by decide) _, Ledger.written_of_eq hperform h⟩
  · next f l' h =>
      refine ⟨Reply.isMessage (by decide) _, ?_⟩
      rw [Ledger.written_log]
      exact Ledger.written_of_eq hperform h

theorem SiteRequest.answers_respond (host : Host σ κ) (param : String) (l : Ledger σ) :
    l.Answers (respond host param l) := by
  unfold respond
  split
  · exact ⟨Reply.isMessage (by decide) _, rfl⟩
  · split
    · next refusal _ => cases refusal <;> exact ⟨Reply.isMessage (by decide) _, rfl⟩
    · next request _ => exact request.answers_answer host l

theorem Answer.answers_toAuth (host : Host σ κ) (secured : Bool) (profile : Profile)
    (l : Ledger σ) :
    l.Answers ((toAuth host secured profile l).reply, (toAuth host secured profile l).ledger) := by
  cases secured with
  | true => exact ⟨Reply.isMessage (by decide) _, rfl⟩
  | false =>
      cases htls : host.tls with
      | ok =>
          simp only [toAuth, htls]
          exact ⟨Reply.isMessage (by decide) _, rfl⟩
      | error failure =>
          simp only [toAuth, htls]
          exact ⟨Reply.isMessage (by decide) _, Ledger.written_log ..⟩

theorem Report.written_onPath (st : Storage σ κ) (path : String) (l : Ledger σ) :
    (onPath st path l).2.written = l.written := by
  unfold onPath
  split
  · next f l' h => exact Ledger.written_of_eq (l.written_stat st path) h
  · next info l' h =>
      have hs := Ledger.written_of_eq (l.written_stat st path) h
      split
      · split
        · next f l'' hd =>
            exact (Ledger.written_of_eq (l'.written_readDir st path) hd).trans hs
        · next entries l'' hd =>
            exact (Ledger.written_of_eq (l'.written_readDir st path) hd).trans hs
      · exact hs

end

/-! ## Answers -/

theorem Host.offersTls_iff {σ κ : Type} (host : Host σ κ) :
    host.offersTls = true ↔ host.tls = .ok () := by
  unfold offersTls
  cases host.tls <;> simp

namespace Answer

variable {σ κ : Type}

theorem written_toCommand (host : Host σ κ) (command : Command) (secured : Bool)
    (profile : Profile) (l : Ledger σ) :
    (toCommand host command secured profile l).ledger.written = l.written := by
  rw [toCommand]
  cases Verb.ofText host.settings.enableHash command.verb with
  | auth => exact (answers_toAuth host secured profile l).written
  | opts =>
      simp only [toOption]
      split
      · exact Ledger.written_log ..
      · rfl
  | stat =>
      simp only [toStat]
      split
      · rfl
      · exact Report.written_onPath ..
  | site => exact (SiteRequest.answers_respond host _ l).written
  | hash => exact (Digests.answers_ofWhole host _ _ l).written
  | legacy a => exact (Digests.answers_ofBounds host a _ l).written
  | _ => rfl

/-- What follows a reply, by the verb that is answered. -/
theorem sequel_toCommand (host : Host σ κ) (command : Command) (secured : Bool)
    (profile : Profile) (l : Ledger σ) :
    (toCommand host command secured profile l).sequel =
      if Text.upper command.verb = "QUIT" then .hangUp
      else if Text.upper command.verb = "AUTH" ∧ secured = false ∧ host.offersTls = true then
        .secure
      else .stay := by
  simp only [← Verb.ofText_eq_quit_iff host.settings.enableHash,
    ← Verb.ofText_eq_auth_iff host.settings.enableHash]
  unfold toCommand
  cases hv : Verb.ofText host.settings.enableHash command.verb with
  | auth =>
      cases secured with
      | true => simp [toAuth]
      | false => cases ht : host.tls <;> simp [toAuth, Host.offersTls, ht]
  | stat =>
      simp only [toStat]
      split <;> simp
  | _ => simp [ofReply, ofChoice, toOption]

end Answer

end FtpControl

import FtpControl.Proofs.FileInfo.FactLines
import FtpControl.Proofs.Reply.Rendering
import FtpControl.Proofs.Session.Passage

/-!
# Which answers are one reply

Every answer is a message or a block with a header and a footer of one line each. Only reports on
the session and on paths show texts that come from elsewhere as they are: where one of them has a
further line that does not start with a space, and only there, the answer is not one reply.
-/

namespace FtpControl

open Text

variable {σ κ : Type}

/-! ## Answers that are messages -/

theorem Choices.isMessage_chooseType (param : String) (profile : Profile) :
    (chooseType param profile).1.IsMessage := by
  unfold chooseType
  split
  · exact Reply.isMessage (by decide) _
  · split <;> exact Reply.isMessage (by decide) _

theorem Choices.isMessage_optionReply (hashing : Bool) (current : HashAlgorithm)
    (param : String) : (optionReply hashing current param).IsMessage := by
  unfold optionReply
  simp only
  split
  · exact Reply.isMessage (by decide) _
  · split
    · split
      · exact Reply.isMessage (by decide) _
      · split <;> exact Reply.isMessage (by decide) _
    · exact Reply.isMessage (by decide) _

/-! ## Features -/

theorem Features.all_offered (present : Bool) (feature : String) (p : String → Bool)
    (h : p feature = true) : (offered present feature).all p = true := by
  cases present <;> simp [offered, h]

theorem Features.all_isIndented_list (host : Host σ κ) (selected : HashAlgorithm) :
    (list host selected).all isIndented = true := by
  have hdigests : ∀ hashing, (digests hashing selected).all isIndented = true := by
    intro hashing
    cases selected <;> cases hashing <;> decide
  simp only [list, List.all_append, hdigests, Bool.and_true]
  rw [all_offered _ _ _ (by decide), all_offered _ _ _ (by decide),
    all_offered _ _ _ (by decide), all_offered _ _ _ (by decide)]
  decide

/-! ## Reports -/

theorem isSingle_of_isDigit {s : String} (h : ∀ c ∈ s.toList, c.isDigit = true) : IsSingle s :=
  fun hfeed => absurd (h _ hfeed) (by decide)

theorem Numeral.isSingle_octal (width n : Nat) : IsSingle (octal width n) :=
  isSingle_of_isDigit isDigit_of_mem_octal

theorem Numeral.isSingle_toString (n : Nat) : IsSingle (toString n) :=
  isSingle_of_isDigit isDigit_of_mem_toString

theorem Timestamp.isSingle_compact (t : Timestamp) : IsSingle t.compact :=
  fun hfeed => absurd (t.isDigit_or_sign_of_mem_compact _ hfeed) (by decide)

/-- A fact line has a further line only where the name has one. -/
theorem FileInfo.isIndented_factLine (info : FileInfo) :
    isIndented info.factLine = isIndented info.name := by
  have hwrite : ∀ {key value}, IsSingle (key ++ "=") → IsSingle value →
      IsSingle (writeFact (key, value)) := fun hkey hvalue =>
    (hkey.append hvalue).append (by decide)
  have hfacts : ∀ fact ∈ info.factList, IsSingle (writeFact fact) := by
    intro fact hfact
    rcases mem_factList_iff.mp hfact with rfl | rfl | ⟨t, -, rfl⟩ | ⟨m, -, rfl⟩
    · exact hwrite (by decide) (by cases info.kind <;> decide)
    · exact hwrite (by decide) (Numeral.isSingle_toString _)
    · exact hwrite (by decide) t.isSingle_compact
    · exact hwrite (by decide) (Numeral.isSingle_octal 4 _)
  rw [factLine_eq]
  exact isIndented_append (IsSingle.append (notMem_join hfacts) (by decide)) info.name

/-- The entries that the report on a path lists. -/
def Report.listed (st : Storage σ κ) (path : String) (l : Ledger σ) : List FileInfo :=
  match l.stat st path with
  | (.error _, _) => []
  | (.ok info, l) =>
      if info.isDirectory then
        match l.readDir st path with
        | (.error _, _) => []
        | (.ok entries, _) => entries
      else [info]

/-- The texts from elsewhere that the answer to a command shows as they are: in the report on the
session, and the names in the report on a path. -/
def Report.shown (host : Host σ κ) (command : Command) (profile : Profile) (l : Ledger σ) :
    List String :=
  if Text.upper command.verb = "STAT" then
    if command.param = "" then [connection host, login profile, host.settings.banner]
    else (listed host.storage command.param l).map FileInfo.name
  else []

theorem Report.wellFramed_listing {path : String} (hpath : IsSingle path)
    (entries : List FileInfo) : (listing path entries).WellFramed :=
  .block (by decide) (IsSingle.append (by decide) hpath) (by decide)

theorem Report.shown_listing (path : String) (entries : List FileInfo) :
    (listing path entries).shown.all isIndented =
      (entries.map FileInfo.name).all isIndented := by
  simp [listing, Reply.shown, Function.comp_def, FileInfo.isIndented_factLine]

theorem Report.onPath_spec (st : Storage σ κ) {path : String} (hpath : IsSingle path)
    (l : Ledger σ) :
    (onPath st path l).1.WellFramed ∧
      (onPath st path l).1.shown.all isIndented =
        ((listed st path l).map FileInfo.name).all isIndented := by
  rcases hstat : l.stat st path with ⟨fault | info, after⟩
  · simp only [onPath, listed, hstat]
    exact ⟨.message (by decide), rfl⟩
  · by_cases hdir : info.isDirectory = true
    · rcases hread : after.readDir st path with ⟨fault | entries, last⟩
      · simp only [onPath, listed, hstat, hdir, hread, ↓reduceIte]
        exact ⟨.message (by decide), rfl⟩
      · simp only [onPath, listed, hstat, hdir, hread, ↓reduceIte]
        exact ⟨wellFramed_listing hpath _, shown_listing path _⟩
    · simp only [onPath, listed, hstat, hdir]
      exact ⟨wellFramed_listing hpath _, shown_listing path _⟩

/-! ## Answers -/

theorem Reply.IsMessage.spec {r : Reply} (h : r.IsMessage) : r.WellFramed ∧ r.shown = [] := by
  obtain ⟨code, text, hcode, rfl⟩ := h
  exact ⟨.message hcode, rfl⟩

/-- The answers that are messages: all but features and reports. -/
theorem Answer.isMessage_toCommand (host : Host σ κ) {command : Command} (secured : Bool)
    (profile : Profile) (l : Ledger σ)
    (hfeat : Verb.ofText host.settings.enableHash command.verb ≠ .feat)
    (hstat : Verb.ofText host.settings.enableHash command.verb ≠ .stat) :
    (toCommand host command secured profile l).reply.IsMessage := by
  rw [toCommand]
  cases hv : Verb.ofText host.settings.enableHash command.verb with
  | feat => exact absurd hv hfeat
  | stat => exact absurd hv hstat
  | auth => exact (answers_toAuth host secured profile l).message
  | opts =>
      simp only [toOption]
      exact Choices.isMessage_optionReply _ _ _
  | type =>
      simp only [ofChoice]
      exact Choices.isMessage_chooseType _ _
  | site =>
      simp only [ofReply]
      exact (SiteRequest.answers_respond host _ l).message
  | hash =>
      simp only [ofReply]
      exact (Digests.answers_ofWhole host _ _ l).message
  | legacy a =>
      simp only [ofReply]
      exact (Digests.answers_ofBounds host a _ l).message
  | _ => exact Reply.isMessage (by decide) _

/-- Every answer is well framed, and shows as they are no texts but those of a report. -/
theorem Answer.reply_spec (host : Host σ κ) {command : Command} (hparam : IsSingle command.param)
    (secured : Bool) (profile : Profile) (l : Ledger σ) :
    (toCommand host command secured profile l).reply.WellFramed ∧
      (toCommand host command secured profile l).reply.shown.all isIndented =
        (Report.shown host command profile l).all isIndented := by
  by_cases hstat : Text.upper command.verb = "STAT"
  · have hv := (Verb.ofText_eq_stat_iff host.settings.enableHash command.verb).mpr hstat
    simp only [toCommand, hv, toStat, Report.shown, hstat, if_true]
    by_cases hempty : command.param = ""
    · simp only [hempty, if_true]
      exact ⟨.block (by decide) (by decide) (by decide), rfl⟩
    · simp only [hempty, if_false]
      exact Report.onPath_spec host.storage hparam l
  · have hnone : Report.shown host command profile l = [] := if_neg hstat
    rw [hnone]
    by_cases hfeat : Verb.ofText host.settings.enableHash command.verb = .feat
    · simp only [toCommand, hfeat]
      exact ⟨.block (by decide) (by decide) (by decide),
        Features.all_isIndented_list host profile.hash⟩
    · have hv : Verb.ofText host.settings.enableHash command.verb ≠ .stat := by
        intro hv
        exact hstat ((Verb.ofText_eq_stat_iff _ _).mp hv)
      obtain ⟨hframed, hshown⟩ := (isMessage_toCommand host secured profile l hfeat hv).spec
      exact ⟨hframed, by rw [hshown]⟩

/-! ## Dispatches -/

/-- A dispatch on an open channel writes its reply, or the front of it that the peer takes. The
reply is exactly one for a client, with a space in front of every line inside it, where the texts
are indented that it shows as they are, and nowhere else. -/
theorem Session.dispatch_writes_one_reply_iff (host : Host σ κ) {command : Command}
    (hparam : IsSingle command.param) {s : Session σ} {via : Protection}
    (hlive : s.channel.state = .live via) :
    (∃ delivered,
      (s.dispatch host command).2.ledger.written = s.ledger.written ++ [(via, delivered)] ∧
      delivered <+: s.replyBytes host command ∧
      (s.channel.outlet.Takes via (s.replyBytes host command) →
        delivered = s.replyBytes host command)) ∧
      (Wire.isOneReply (s.replyBytes host command) = true ↔
        ∀ text ∈ Report.shown host command s.profile s.ledger, isIndented text = true) := by
  constructor
  · have hpassage := passage_of_dispatch (show s.dispatch host command = (_, _) from rfl)
    rw [hlive] at hpassage
    obtain ⟨delivered, rest, hwritten, hcut, htakes⟩ := hpassage.of_live
    refine ⟨delivered, hwritten, ⟨rest, hcut.symm⟩, ?_⟩
    intro hall
    rw [hcut, htakes hall, List.append_nil]
  · obtain ⟨hframed, hshown⟩ :=
      Answer.reply_spec host hparam s.channel.isSecure s.profile s.ledger
    rw [replyBytes, answerTo, hframed.isOneReply_render, hshown, List.all_eq_true]

/-- A status whose banner has a second line that starts with a space. -/
theorem Session.status_with_indented_banner :
    let host := { Host.bare (.ok ()) with settings := { banner := "hello\n and welcome" } }
    let s : Session MemoryStore := { channel := {}, ledger := { store := [] } }
    ∃ delivered, (s.dispatch host ⟨"STAT", ""⟩).2.ledger.written = [(.clear, delivered)] ∧
      Wire.isOneReply delivered = true := by
  intro host s
  have hparam : IsSingle (Command.mk "STAT" "").param := by decide
  have hlive : s.channel.state = .live .clear := rfl
  obtain ⟨⟨delivered, hwritten, -, hall⟩, hone⟩ :=
    dispatch_writes_one_reply_iff host hparam hlive
  refine ⟨delivered, hwritten, ?_⟩
  rw [hall rfl]
  exact hone.mpr (by decide)

/-- A status whose banner has a second line that looks like the end of the report. -/
theorem Session.status_with_forged_end :
    let host := { Host.bare (.ok ()) with settings := { banner := "hello\n213 End of status" } }
    let s : Session MemoryStore := { channel := {}, ledger := { store := [] } }
    let bytes := Text.bytes
      ("213-Server status\r\n Connected to 0.0.0.0:21 from unknown for 0s\r\n" ++
        " Not logged in yet\r\n hello\n213 End of status\r\n213 End of status\r\n")
    (s.dispatch host ⟨"STAT", ""⟩).2.ledger.written = [(.clear, bytes)] ∧
      Wire.isOneReply bytes = false := by
  decide +kernel

end FtpControl

import FtpControl.Proofs.Session.Keywords
import FtpControl.Proofs.Session.SiteGrammar

/-!
# What becomes of a parameter

A parameter comes as it was sent to where it is used: to the storage, whole or in the parts between
its first spaces, and to what is known of the client, by its exact text.
-/

namespace FtpControl

open Digests

variable {σ κ : Type}

/-! ## Parts of a parameter -/

/-- Whether a request for a digest has the parts of a parameter: all of it as the path, or what
stands before the first space as the path and the bounds behind it. -/
structure Digests.Request.IsOf (r : Request) (param : String) : Prop where
  whole : " ".intercalate (r.path :: r.bounds) = param
  path : r.bounds ≠ [] → ' ' ∉ r.path.toList

theorem Digests.Request.isOf_bounded (a : HashAlgorithm) (param : String) :
    (bounded a param).IsOf param := by
  have hwhole := Text.intercalate_cutUpTo 2 param
  rw [Text.cutUpTo] at hwhole
  cases hcut : Text.cut? ' ' param with
  | none =>
      have hparts : pathAndBounds param = (param, []) := by simp [pathAndBounds, Text.cutUpTo, hcut]
      refine ⟨?_, fun hbounds => ?_⟩
      · rw [bounded, hparts, String.intercalate_singleton]
      · simp [bounded, hparts] at hbounds
  | some parts =>
      obtain ⟨front, back⟩ := parts
      have hparts : pathAndBounds param = (front, Text.cutUpTo ' ' 1 back) := by
        rw [pathAndBounds, Text.cutUpTo, hcut]
      simp only [hcut] at hwhole
      refine ⟨?_, fun _ => ?_⟩
      · rw [bounded, hparts]
        exact hwhole
      · rw [bounded, hparts]
        exact (Text.cut?_eq_some_iff.mp hcut).1

theorem Command.AsksDigest.isOf {command : Command} {selected : HashAlgorithm} {request : Request}
    (h : command.AsksDigest selected request) : request.IsOf command.param := by
  cases h with
  | whole => exact ⟨String.intercalate_singleton, fun hbounds => absurd rfl hbounds⟩
  | bounded => exact Request.isOf_bounded _ _

/-! ## Calls -/

/-- The call that a command begins with, made of the parts of its parameter. -/
inductive Command.Begins (settings : Settings) (command : Command) : Call → Prop where
  | reported (hverb : Text.upper command.verb = "STAT") (hparam : command.param ≠ "") :
      Begins settings command (.stat command.param)
  | digest {selected request} (hoffers : settings.enableHash = true)
      (hasks : command.AsksDigest selected request) : Begins settings command (.stat request.path)
  | changed {request : SiteRequest} (henabled : settings.disableSite = false)
      (hverb : Text.upper command.verb = "SITE")
      (hreading : SiteRequest.Reading command.param (.ok request)) :
      Begins settings command request.call

/-- Whether a call goes on with the path that another has described. -/
def Call.GoesOnWith (first call : Call) : Prop :=
  ∃ path, first = .stat path ∧ (call = .readDir path ∨ call.Opens path ∨ call.OnHandle)

/-- The calls that a command hands its parameter to. -/
inductive Command.Hands (settings : Settings) (command : Command) : List Call → Prop where
  | nothing (hnone : ∀ call, ¬ command.Begins settings call) : Hands settings command []
  | called {first more} (hfirst : command.Begins settings first)
      (hmore : ∀ call ∈ more, first.GoesOnWith call) : Hands settings command (first :: more)

theorem Call.Fetches.goesOnWith {path : String} {calls : List Call} (h : Fetches path calls) :
    ∀ call ∈ calls, (Call.stat path).GoesOnWith call := by
  cases h with
  | opened hfirst hrest =>
      rw [List.forall_mem_cons]
      exact ⟨⟨path, rfl, .inr (.inl hfirst)⟩,
        fun call hcall => ⟨path, rfl, .inr (.inr (hrest call hcall))⟩⟩

namespace Answer

variable (host : Host σ κ) (command : Command) (secured : Bool) (profile : Profile) (l : Ledger σ)

/-- Where there is a call to begin with, it is made first. -/
theorem calls_toCommand {call : Call} (h : command.Begins host.settings call) : ∃ more,
    (toCommand host command secured profile l).ledger.calls = l.calls ++ call :: more := by
  cases h with
  | reported hverb hparam =>
      obtain ⟨more, hreport, -⟩ := Report.lends_onPath host profile.hash hverb l
      refine ⟨more, ?_⟩
      simp only [toCommand, (Verb.ofText_eq_stat_iff _ _).mpr hverb, toStat, if_neg hparam]
      exact hreport.calls
  | digest hoffers hasks =>
      cases hasks with
      | whole hverb =>
          obtain ⟨more, hfind, -⟩ := lends_find host hoffers (.whole hverb) l
          refine ⟨more, ?_⟩
          simp only [toCommand, hoffers, Verb.ofText_hash hverb, ofReply, Request.ofWhole_eq]
          exact hfind.calls
      | bounded hverb =>
          have hasks : command.AsksDigest profile.hash (.bounded _ command.param) :=
            .bounded hverb
          obtain ⟨more, hfind, -⟩ := lends_find host hoffers hasks l
          refine ⟨more, ?_⟩
          simp only [toCommand, hoffers, Verb.ofText_legacy hverb, ofReply, Request.ofBounds_eq]
          exact hfind.calls
  | changed henabled hverb hreading =>
      have hsite := (Verb.ofText_eq_basic_iff (show ("SITE", .site) ∈ Verb.basic by decide)
        host.settings.enableHash command.verb).mpr hverb
      simp only [toCommand, hsite, ofReply]
      exact ⟨[], (SiteRequest.respond_of_request henabled hreading l).1.calls⟩

/-- An answer hands its parameter on in the calls that it makes. -/
theorem hands_toCommand : ∃ asked,
    l.Asks host.storage asked (toCommand host command secured profile l).ledger ∧
      command.Makes host profile.hash l.store asked ∧ command.Hands host.settings asked := by
  obtain ⟨asked, hlends, hmakes⟩ := lends_toCommand host command secured profile l
  refine ⟨asked, hlends.asks, hmakes, ?_⟩
  have hbegins : ∀ call, command.Begins host.settings call → asked ≠ [] := by
    rintro call hbegin rfl
    obtain ⟨more, hcalls⟩ := calls_toCommand host command secured profile l hbegin
    simp [hlends.calls] at hcalls
  -- A report on the session asks nothing.
  have hstat : Text.upper command.verb = "STAT" → asked ≠ [] → command.param ≠ "" := by
    intro hverb hasked hparam
    have hcalls := hlends.calls
    simp only [toCommand, (Verb.ofText_eq_stat_iff _ _).mpr hverb, toStat, if_pos hparam] at hcalls
    exact hasked (List.append_right_eq_self.mp hcalls.symm)
  cases hmakes with
  | nothing => exact .nothing fun call hbegin => hbegins call hbegin rfl
  | reported hverb => exact .called (.reported hverb (hstat hverb (by simp))) (by simp)
  | listed hverb =>
      refine .called (.reported hverb (hstat hverb (by simp))) ?_
      simp [Call.GoesOnWith]
  | inspected hoffers hasks => exact .called (.digest hoffers hasks) (by simp)
  | fetched hoffers hasks _ _ _ hfetches =>
      exact .called (.digest hoffers hasks) hfetches.goesOnWith
  | changed henabled hverb hparam =>
      exact .called (.changed henabled hverb (SiteRequest.reading_ok_iff.mpr hparam)) (by simp)

end Answer

/-! ## Steps -/

namespace Run

/-- What a step makes of the parameter of its command. -/
structure Verbatim (host : Host σ κ) (command : Command) (r next : Run σ) : Prop where
  calls : ∃ asked, r.session.ledger.Asks host.storage asked next.session.ledger ∧
    command.Makes host r.session.profile.hash r.session.ledger.store asked ∧
    command.Hands host.settings asked
  digests : ∀ {selected request}, command.AsksDigest selected request →
    request.IsOf command.param
  user : next.session.profile.user = r.session.profile.user
  clientName : next.session.profile.clientName =
    if Text.upper command.verb = "CLNT" then command.param else r.session.profile.clientName
  privateTransfers : next.session.profile.privateTransfers =
    if Text.upper command.verb = "PROT" then decide (command.param = "P")
    else r.session.profile.privateTransfers
  transferType : next.session.profile.transferType =
    if Text.upper command.verb = "TYPE" ∧ command.param = "I" then .binary
    else if Text.upper command.verb = "TYPE" ∧ command.param = "A" then .ascii
    else r.session.profile.transferType
  /-- Algorithms are selected by their exact names. -/
  selected : ∀ {word : String} {a : HashAlgorithm}, host.settings.enableHash = true →
    Text.upper command.verb = "OPTS" → Text.upper word = "HASH" →
    command.param = word ++ " " ++ a.name → next.session.profile.hash = a
  kept : (host.settings.enableHash = true → Text.upper command.verb = "OPTS" →
      ∀ word (a : HashAlgorithm), Text.upper word = "HASH" →
        command.param ≠ word ++ " " ++ a.name) →
    next.session.profile.hash = r.session.profile.hash

theorem verbatim_perform {host : Host σ κ} {r : Run σ} {s : Session σ} (command : Command)
    (hprofile : s.profile = r.session.profile)
    (hheard : ∃ level text, s.ledger = r.session.ledger.log level text) :
    Verbatim host command r (settle host (s.perform host command)) := by
  obtain ⟨level, text, hheard⟩ := hheard
  have hlogged : r.session.ledger.Quiet s.ledger := hheard ▸ Ledger.quiet_log ..
  obtain ⟨asked, hasks, hmakes, hhands⟩ :=
    Answer.hands_toCommand host command s.channel.isSecure s.profile s.ledger
  have hafter : (s.answered host command).ledger.Quiet
      (settle host (s.perform host command)).session.ledger :=
    (Session.quiet_after_answer host command s).trans (quiet_settle host _)
  rw [hprofile, hlogged.store] at hmakes
  have hchosen : (settle host (s.perform host command)).session.profile =
      Choices.choose host.settings.enableHash command r.session.profile := by
    rw [profile_settle, Session.profile_perform, hprofile]
  rw [Choices.choose_eq] at hchosen
  refine ⟨⟨asked, ((hlogged.asks _).trans hasks).quiet hafter, hmakes, hhands⟩,
    fun hasks => hasks.isOf, ?_, ?_, ?_, ?_, ?_, ?_⟩
  · rw [hchosen]
  · rw [hchosen]
  · rw [hchosen]
  · rw [hchosen]
    by_cases htype : Text.upper command.verb = "TYPE"
    · simp only [htype, if_true, true_and, Choices.type?]
      split
      · rfl
      · split <;> rfl
    · simp only [htype, if_false, false_and]
  · intro word a hoffers hverb hword hparam
    have hselected := Choices.selection?_eq_some_iff.mpr ⟨hoffers, word, hword, hparam⟩
    rw [hchosen]
    simp only [hverb, if_true, hselected, Option.getD_some]
  · intro hnone
    rw [hchosen]
    by_cases hverb : Text.upper command.verb = "OPTS"
    · cases hselected : Choices.selection? host.settings.enableHash command.param with
      | none => simp only [hverb, if_true, Option.getD_none]
      | some a =>
          obtain ⟨hoffers, word, hword, hparam⟩ := Choices.selection?_eq_some_iff.mp hselected
          exact absurd hparam (hnone hoffers hverb word a hword)
    · simp only [hverb, if_false]

/-- A step that serves a line carries out what the line carries, with its parameter as it was
sent. -/
theorem verbatim_of_step {host : Host σ κ} {r next : Run σ} {line : List UInt8}
    (hline : r.line? = some line) (h : Step host r next) :
    ∃ command : Command, command.Carries line ∧ Verbatim host command r next := by
  cases h with
  | @line s via read rest hstate hread =>
      obtain rfl : read = line := by simpa [line?, hstate, hread] using hline
      exact ⟨_, Command.carries_ofLine read, verbatim_perform (Command.ofLine _) rfl ⟨_, _, rfl⟩⟩
  | greet => cases hline
  | overlong hstate hread => simp [line?, hstate, hread] at hline
  | ended hstate hread => simp [line?, hstate, hread] at hline
  | failed hstate hread => simp [line?, hstate, hread] at hline
  | closed hstate => simp [line?, hstate] at hline
  | shaken => cases hline

end Run

end FtpControl

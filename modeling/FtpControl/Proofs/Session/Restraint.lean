import FtpControl.Proofs.Session.Negotiation
import FtpControl.Proofs.Session.Steps
import FtpControl.Proofs.Storage.Lending

/-!
# What a session asks of its storage

A session asks of its storage what its commands are for, and nothing else. What is switched off is
never asked; files are opened for digests alone and only to be read; and changes are made one by
one, each by the command that asks for it.
-/

namespace FtpControl

open Digests

variable {σ κ : Type}

/-! ## What a command may ask -/

def SiteRequest.call : SiteRequest → Call
  | chmod permissions path => .chmod path permissions
  | chown user group path => .chown path user group
  | symlink target link => .symlink target link

/-- The requests for digests that a command makes: by the verb for the selected algorithm, and by
the verbs that each stand for one. -/
inductive Command.AsksDigest (command : Command) (selected : HashAlgorithm) : Request → Prop where
  | whole (hverb : Text.upper command.verb = "HASH") :
      AsksDigest command selected (.whole selected command.param)
  | bounded {a} (hverb : HashAlgorithm.ofLegacyVerb? (Text.upper command.verb) = some a) :
      AsksDigest command selected (.bounded a command.param)

/-- The calls that a command may make on a storage. -/
inductive Command.Makes (host : Host σ κ) (command : Command) (selected : HashAlgorithm)
    (store : σ) : List Call → Prop where
  | nothing : Makes host command selected store []
  | reported (hverb : Text.upper command.verb = "STAT") :
      Makes host command selected store [.stat command.param]
  /-- A directory is listed once it was described as one. -/
  | listed {info} (hverb : Text.upper command.verb = "STAT")
      (hstat : (host.storage.stat command.param store).1 = .ok info)
      (hkind : info.isDirectory = true) :
      Makes host command selected store [.stat command.param, .readDir command.param]
  | inspected {request : Request} (hoffers : host.settings.enableHash = true)
      (hasks : command.AsksDigest selected request) :
      Makes host command selected store [.stat request.path]
  /-- A file is read once it was described as a regular one and its range was accepted. -/
  | fetched {request : Request} {info range calls} (hoffers : host.settings.enableHash = true)
      (hasks : command.AsksDigest selected request)
      (hstat : (host.storage.stat request.path store).1 = .ok info)
      (hkind : info.isRegular = true)
      (hrange : ByteRange.ofTokens request.bounds info.size = .ok range)
      (hfetches : Call.Fetches request.path calls) :
      Makes host command selected store (.stat request.path :: calls)
  /-- A change is made by the one call that it is. -/
  | changed {request : SiteRequest} (henabled : host.settings.disableSite = false)
      (hverb : Text.upper command.verb = "SITE")
      (hparam : SiteRequest.ofParam command.param = .ok request) :
      Makes host command selected store [request.call]

namespace Command.Makes

variable {host : Host σ κ} {command : Command} {selected : HashAlgorithm} {store : σ}
  {calls : List Call}

/-- Without digests, no file is used. -/
theorem not_usesFile (h : command.Makes host selected store calls)
    (hoff : host.settings.enableHash = false) : ∀ call ∈ calls, ¬ call.UsesFile := by
  cases h with
  | nothing => simp
  | reported => simp [Call.UsesFile, Call.OnHandle]
  | listed => simp [Call.UsesFile, Call.OnHandle]
  | inspected hoffers => simp [hoff] at hoffers
  | fetched hoffers => simp [hoff] at hoffers
  | @changed request => cases request <;> simp [SiteRequest.call, Call.UsesFile, Call.OnHandle]

/-- Every command but one asks for nothing but to read. -/
theorem reads (h : command.Makes host selected store calls)
    (hother : host.settings.disableSite = true ∨ Text.upper command.verb ≠ "SITE") :
    ∀ call ∈ calls, call.Reads := by
  cases h with
  | nothing => simp
  | reported => simp [Call.Reads]
  | listed => simp [Call.Reads]
  | inspected => simp [Call.Reads]
  | fetched _ _ _ _ _ hfetches => exact List.forall_mem_cons.mpr ⟨trivial, hfetches.reads⟩
  | changed henabled hverb =>
      rcases hother with hoff | hother
      · simp [hoff] at henabled
      · exact absurd hverb hother

end Command.Makes

/-! ## What the parts of an answer ask -/

namespace Digests

theorem lends_digest (host : Host σ κ) (path : String) {range : ByteRange}
    (horder : range.start ≤ range.stop) (a : HashAlgorithm) (l : Ledger σ) :
    ∃ asked, l.Lends host.storage none asked (digest host path a range l).2 none ∧
      Call.Fetches path asked := by
  obtain ⟨asked, hread, hcourse⟩ := Checksum.lends_ofRange host.storage path a horder l
  refine ⟨asked, ?_, hcourse.fetches⟩
  unfold digest
  split
  · next hr =>
      rw [hr] at hread
      exact hread
  · next hr =>
      rw [hr] at hread
      exact hread.quiet (Ledger.quiet_log ..)

/-- A request for a digest describes what its path names, and reads no more than a regular file in a
range that was accepted. -/
theorem lends_find (host : Host σ κ) {command : Command} {selected : HashAlgorithm}
    {request : Request} (hoffers : host.settings.enableHash = true)
    (hasks : command.AsksDigest selected request) (l : Ledger σ) :
    ∃ more, l.Lends host.storage none (.stat request.path :: more) (request.find host l).2 none ∧
      command.Makes host selected l.store (.stat request.path :: more) := by
  have hdescribed := l.lends_stat host.storage none request.path
  unfold Request.find regular
  rcases hstat : l.stat host.storage request.path with ⟨f | info, m⟩
  · rw [hstat] at hdescribed
    exact ⟨_, hdescribed, .inspected hoffers hasks⟩
  · rw [hstat] at hdescribed
    have hinfo : (host.storage.stat request.path l.store).1 = .ok info := congrArg Prod.fst hstat
    by_cases hkind : info.isRegular = true
    · simp only [hkind, if_true]
      cases hrange : ByteRange.ofTokens request.bounds info.size with
      | error refusal => exact ⟨_, hdescribed, .inspected hoffers hasks⟩
      | ok range =>
          obtain ⟨asked, hread, hfetches⟩ := lends_digest host request.path
            (ByteRange.ofTokens_spec hrange).1 request.algorithm m
          exact ⟨_, hdescribed.trans hread, .fetched hoffers hasks hinfo hkind hrange hfetches⟩
    · simp only [hkind]
      exact ⟨_, hdescribed, .inspected hoffers hasks⟩

end Digests

theorem Report.lends_onPath (host : Host σ κ) {command : Command} (selected : HashAlgorithm)
    (hverb : Text.upper command.verb = "STAT") (l : Ledger σ) :
    ∃ more, l.Lends host.storage none (.stat command.param :: more)
        (onPath host.storage command.param l).2 none ∧
      command.Makes host selected l.store (.stat command.param :: more) := by
  have hdescribed := l.lends_stat host.storage none command.param
  unfold onPath
  rcases hstat : l.stat host.storage command.param with ⟨f | info, m⟩
  · rw [hstat] at hdescribed
    exact ⟨_, hdescribed, .reported hverb⟩
  · rw [hstat] at hdescribed
    have hinfo : (host.storage.stat command.param l.store).1 = .ok info := congrArg Prod.fst hstat
    by_cases hkind : info.isDirectory = true
    · have hlisted := m.lends_readDir host.storage none command.param
      simp only [hkind, if_true]
      refine ⟨_, hdescribed.trans ?_, .listed hverb hinfo hkind⟩
      rcases hdir : m.readDir host.storage command.param with ⟨f | entries, n⟩
      · rw [hdir] at hlisted
        exact hlisted
      · rw [hdir] at hlisted
        exact hlisted
    · simp only [hkind]
      exact ⟨_, hdescribed, .reported hverb⟩

namespace SiteRequest

theorem lends_perform (st : Storage σ κ) (request : SiteRequest) (l : Ledger σ) :
    l.Lends st none [request.call] (request.perform st l).2 none := by
  cases request with
  | chmod permissions path => exact l.lends_chmod st none path permissions
  | chown user group path => exact l.lends_chown st none path user group
  | symlink target link => exact l.lends_symlink st none target link

theorem lends_respond (host : Host σ κ) {command : Command} (selected : HashAlgorithm)
    (hverb : Text.upper command.verb = "SITE") (l : Ledger σ) :
    ∃ asked, l.Lends host.storage none asked (respond host command.param l).2 none ∧
      command.Makes host selected l.store asked := by
  unfold respond
  cases henabled : host.settings.disableSite with
  | true => exact ⟨[], .refl _ l _, .nothing⟩
  | false =>
      cases hparam : ofParam command.param with
      | error refusal => exact ⟨[], .refl _ l _, .nothing⟩
      | ok request =>
          have hperform := request.lends_perform host.storage l
          refine ⟨_, ?_, .changed henabled hverb hparam⟩
          simp only [answer]
          rcases hdone : request.perform host.storage l with ⟨f | _, m⟩
          · rw [hdone] at hperform
            exact hperform.quiet (Ledger.quiet_log ..)
          · rw [hdone] at hperform
            exact hperform

theorem view_perform {α : Type} {st : Storage σ κ} {view : σ → α} (hfails : st.FailuresKeep view)
    {request : SiteRequest} {l : Ledger σ} {f : Failure}
    (h : (request.perform st l).1 = .error f) :
    view (request.perform st l).2.store = view l.store := by
  cases request with
  | chmod permissions path => exact hfails.chmod (Prod.ext h rfl)
  | chown user group path => exact hfails.chown (Prod.ext h rfl)
  | symlink target link => exact hfails.symlink (Prod.ext h rfl)

/-- What is answered by a refusal has changed nothing, if changes that fail change nothing. -/
theorem view_respond {α : Type} {host : Host σ κ} {view : σ → α}
    (hfails : host.storage.FailuresKeep view) {param : String} {l : Ledger σ}
    (hcode : 500 ≤ (respond host param l).1.code) :
    view (respond host param l).2.store = view l.store := by
  unfold respond at hcode ⊢
  cases henabled : host.settings.disableSite with
  | true => rfl
  | false =>
      cases hparam : ofParam param with
      | error refusal => rfl
      | ok request =>
          simp only [henabled, hparam, answer, Bool.false_eq_true, if_false] at hcode ⊢
          rcases hdone : request.perform host.storage l with ⟨f | ⟨⟩, m⟩
          · have hfailed : (request.perform host.storage l).1 = .error f := by rw [hdone]
            have hview := view_perform hfails hfailed
            rw [hdone] at hview
            exact hview
          · simp only [hdone, Reply.code] at hcode
            exact absurd hcode (by decide)

end SiteRequest

/-! ## What an answer asks -/

namespace Verb

/-- What a verb for digests means, it means only while digests are offered. -/
theorem offers_of_ofText {enableHash : Bool} {word : String} {v : Verb}
    (hdigest : v = hash ∨ ∃ a, v = legacy a) (h : ofText enableHash word = v) :
    enableHash = true := by
  have hbasic : ∀ p ∈ table false, p.2 ≠ hash ∧ ∀ a, p.2 ≠ legacy a := by
    simp [table, basic]
  cases enableHash with
  | true => rfl
  | false =>
      have hknown : v ≠ unknown := by
        rcases hdigest with rfl | ⟨a, rfl⟩ <;> simp
      obtain ⟨hhash, hlegacy⟩ := hbasic _ (mem_table_of_ofUpper hknown h)
      rcases hdigest with hv | ⟨a, hv⟩
      · exact absurd hv hhash
      · exact absurd hv (hlegacy a)

theorem upper_of_hash {enableHash : Bool} {word : String} (h : ofText enableHash word = hash) :
    Text.upper word = "HASH" := by
  have hname : ∀ enableHash, ∀ p ∈ table enableHash, p.2 = hash → p.1 = "HASH" := by decide
  exact hname _ _ (mem_table_of_ofUpper (by simp) h) rfl

theorem upper_of_legacy {enableHash : Bool} {word : String} {a : HashAlgorithm}
    (h : ofText enableHash word = legacy a) :
    HashAlgorithm.ofLegacyVerb? (Text.upper word) = some a := by
  have hname : ∀ enableHash, ∀ p ∈ table enableHash,
      p.2 = legacy a → HashAlgorithm.ofLegacyVerb? p.1 = some a := by
    cases a <;> decide
  exact hname _ _ (mem_table_of_ofUpper (by simp) h) rfl

end Verb

/-- Every answer comes after the calls that its command may make, and no others, and leaves no
handle out. -/
theorem Answer.lends_toCommand (host : Host σ κ) (command : Command) (secured : Bool)
    (profile : Profile) (l : Ledger σ) :
    ∃ asked, l.Lends host.storage none asked
      (toCommand host command secured profile l).ledger none ∧
      command.Makes host profile.hash l.store asked := by
  have hstat := Verb.ofText_eq_stat_iff host.settings.enableHash command.verb
  have hsite := Verb.ofText_eq_basic_iff (show ("SITE", .site) ∈ Verb.basic by decide)
    host.settings.enableHash command.verb
  rw [toCommand]
  cases hverb : Verb.ofText host.settings.enableHash command.verb with
  | auth =>
      refine ⟨[], ?_, .nothing⟩
      cases secured with
      | true => exact .refl _ l _
      | false =>
          cases htls : host.tls with
          | ok => simpa [toAuth, htls] using .refl _ l _
          | error failure => simpa [toAuth, htls] using (Ledger.quiet_log ..).lends _ none
  | opts =>
      refine ⟨[], ?_, .nothing⟩
      simp only [toOption]
      split
      · exact (Ledger.quiet_log ..).lends _ none
      · exact .refl _ l _
  | stat =>
      simp only [toStat]
      split
      · exact ⟨[], .refl _ l _, .nothing⟩
      · obtain ⟨more, hreport⟩ := Report.lends_onPath host profile.hash (hstat.mp hverb) l
        exact ⟨_, hreport⟩
  | site => exact SiteRequest.lends_respond host profile.hash (hsite.mp hverb) l
  | hash =>
      have hoffers := Verb.offers_of_ofText (.inl rfl) hverb
      obtain ⟨more, hfind⟩ := Digests.lends_find host hoffers (.whole (Verb.upper_of_hash hverb)) l
      simp only [ofReply, Digests.Request.ofWhole_eq]
      exact ⟨_, hfind⟩
  | legacy a =>
      have hoffers := Verb.offers_of_ofText (.inr ⟨a, rfl⟩) hverb
      obtain ⟨more, hfind⟩ :=
        Digests.lends_find host hoffers (.bounded (Verb.upper_of_legacy hverb)) l
      simp only [ofReply, Digests.Request.ofBounds_eq]
      exact ⟨_, hfind⟩
  | _ => exact ⟨[], .refl _ l _, .nothing⟩

/-! ## What a command asks -/

namespace Session

theorem quiet_send (reply : Reply) (s : Session σ) :
    s.ledger.Quiet (s.send reply).2.ledger := by
  have hsent := sent_send reply s
  generalize s.send reply = out at hsent ⊢
  obtain ⟨answer, t⟩ := out
  cases hsent with
  | closed => exact .refl _
  | cut => exact Ledger.quiet_wrote ..
  | whole => exact (Ledger.quiet_wrote ..).trans (Ledger.quiet_logSent ..)

theorem quiet_hangUp (host : Host σ κ) (s : Session σ) :
    s.ledger.Quiet (s.hangUp host).ledger := by
  simp only [hangUp]
  split
  · exact Ledger.quiet_log ..
  · exact (Ledger.quiet_log ..).trans (Ledger.quiet_log ..)

/-- What follows an answer asks nothing more. -/
theorem quiet_after_answer (host : Host σ κ) (command : Command) (s : Session σ) :
    (s.answered host command).ledger.Quiet (s.perform host command).2.ledger := by
  have hreplied : ∀ via, (s.answered host command).ledger.Quiet
      (s.replied host command via).ledger := by
    intro via
    exact (Ledger.quiet_wrote ..).trans (Ledger.quiet_logSent ..)
  rcases hperform : s.perform host command with ⟨outcome, t⟩
  cases course_of_perform hperform with
  | closed _ ht => rw [ht]; exact .refl _
  | cut _ _ _ ht => rw [ht]; exact Ledger.quiet_wrote ..
  | stay _ _ _ ht => rw [ht]; exact hreplied _
  | hangUp _ _ _ ht => rw [ht]; exact (hreplied _).trans (quiet_hangUp ..)
  | secure _ _ _ ht => rw [ht]; exact hreplied _

theorem lends_answered (host : Host σ κ) (command : Command) (s : Session σ) :
    ∃ asked, s.ledger.Lends host.storage none asked (s.answered host command).ledger none ∧
      command.Makes host s.profile.hash s.ledger.store asked :=
  Answer.lends_toCommand host command s.channel.isSecure s.profile s.ledger

theorem answerTo_site (host : Host σ κ) {command : Command}
    (hverb : Text.upper command.verb = "SITE") (s : Session σ) :
    s.answerTo host command =
      Answer.ofReply s.profile (SiteRequest.respond host command.param s.ledger) := by
  have hsite := (Verb.ofText_eq_basic_iff (show ("SITE", .site) ∈ Verb.basic by decide)
    host.settings.enableHash command.verb).mpr hverb
  simp only [answerTo, Answer.toCommand, hsite]

/-- A request for a change that is answered by a refusal has changed nothing. -/
theorem view_answered {α : Type} {host : Host σ κ} {view : σ → α}
    (hfails : host.storage.FailuresKeep view) {command : Command} {s : Session σ}
    (hverb : Text.upper command.verb = "SITE")
    (hcode : 500 ≤ (s.answerTo host command).reply.code) :
    view (s.answered host command).ledger.store = view s.ledger.store := by
  rw [answerTo_site host hverb] at hcode
  rw [answered, answerTo_site host hverb]
  exact SiteRequest.view_respond hfails hcode

theorem quiet_secure (host : Host σ κ) (s : Session σ) :
    s.ledger.Quiet (s.secure host).2.ledger := by
  rcases hsecure : s.secure host with ⟨outcome, t⟩
  cases upgrade_of_secure hsecure with
  | waiting _ ht => rw [ht]; exact .refl _
  | failed _ ht => rw [ht]; exact .refl _
  | done _ _ ht => rw [ht]; exact Ledger.quiet_log ..

theorem quiet_dispatch (host : Host σ κ) (command : Command) (s : Session σ) :
    (s.answered host command).ledger.Quiet (s.dispatch host command).2.ledger := by
  have hperformed := quiet_after_answer host command s
  unfold dispatch
  split
  · next t ht =>
      rw [ht] at hperformed
      exact hperformed.trans (quiet_secure host t)
  · exact hperformed

end Session

/-! ## What a step asks -/

namespace Run

variable {host : Host σ κ}

/-- The command that a run carries out next, and the session that does so. -/
def hears? (r : Run σ) : Option (Command × Session σ) :=
  match r.phase, r.session.channel.state with
  | .serving, .live via =>
      match RawLine.read via r.session.channel.inlet with
      | .line line rest =>
          some (Command.ofLine (Channel.lineText line), r.session.hearing line rest)
      | _ => none
  | _, _ => none

theorem quiet_settle (host : Host σ κ) (o : Outcome × Session σ) :
    o.2.ledger.Quiet (settle host o).session.ledger := by
  rcases o with ⟨_ | _ | _, s⟩
  · simp only [settle]
    split
    · exact Ledger.quiet_log ..
    · exact .refl _
  · exact .refl _
  · exact Ledger.quiet_log ..

theorem quiet_say (host : Host σ κ) (reply : Reply) (s : Session σ) :
    s.ledger.Quiet (say host reply s).session.ledger := by
  have hsend := s.quiet_send reply
  unfold say
  split
  · next hs =>
      rw [hs] at hsend
      exact hsend
  · next hs =>
      rw [hs] at hsend
      exact hsend.trans (Ledger.quiet_log ..)

theorem quiet_greet (host : Host σ κ) (s : Session σ) :
    s.ledger.Quiet (greet host s).session.ledger := by
  apply Ledger.Quiet.trans (Ledger.quiet_log ..)
  exact quiet_say host _ (s.log .info _)

theorem quiet_refuse (host : Host σ κ) (s : Session σ) :
    s.ledger.Quiet (refuse host s).session.ledger := by
  apply Ledger.Quiet.trans (Ledger.quiet_log ..)
  exact quiet_say host _ (s.log .warn _)

/-- What a step asks is asked by the answer to the command that is carried out in it, if there is
one. -/
theorem quiet_step {r next : Run σ} (h : Step host r next) :
    (r.hears? = none ∧ r.session.ledger.Quiet next.session.ledger) ∨
      ∃ command s, r.hears? = some (command, s) ∧ s.profile = r.session.profile ∧
        (∃ level text, s.ledger = r.session.ledger.log level text) ∧
        (s.answered host command).ledger.Quiet next.session.ledger := by
  cases h with
  | greet => exact .inl ⟨rfl, quiet_greet ..⟩
  | @line s via line rest hstate hread =>
      refine .inr ⟨Command.ofLine (Channel.lineText line), s.hearing line rest, ?_, rfl,
        ⟨_, _, rfl⟩, ?_⟩
      · simp only [hears?, hstate, hread]
      · exact (Session.quiet_after_answer host _ _).trans (quiet_settle host _)
  | @overlong s via rest hstate hread =>
      refine .inl ⟨?_, quiet_refuse host (s.receiving rest)⟩
      simp only [hears?, hstate, hread]
  | ended hstate hread =>
      refine .inl ⟨?_, Ledger.quiet_log ..⟩
      simp only [hears?, hstate, hread]
  | failed hstate hread =>
      refine .inl ⟨?_, Ledger.quiet_log ..⟩
      simp only [hears?, hstate, hread]
  | closed hstate =>
      refine .inl ⟨?_, Ledger.quiet_log ..⟩
      simp only [hears?, hstate]
  | shaken => exact .inl ⟨rfl, (Session.quiet_secure host _).trans (quiet_settle host _)⟩

/-! ## The digest algorithm without digests -/

theorem profile_say (host : Host σ κ) (reply : Reply) (s : Session σ) :
    (say host reply s).session.profile = s.profile := by
  unfold say
  rcases hsend : s.send reply with ⟨_ | _, t⟩
  · exact congrArg (fun p => p.2.profile) hsend.symm
  · exact congrArg (fun p => p.2.profile) hsend.symm

theorem profile_settle (host : Host σ κ) (o : Outcome × Session σ) :
    (settle host o).session.profile = o.2.profile := by
  rcases o with ⟨_ | _ | _, s⟩
  · simp only [settle]
    split <;> rfl
  · rfl
  · rfl

/-- While digests are not offered, none is selected. -/
theorem hash_of_step {r next : Run σ} (hoff : host.settings.enableHash = false)
    (h : Step host r next) : next.session.profile.hash = r.session.profile.hash := by
  cases h with
  | greet s => rw [greet, profile_say]; rfl
  | @line s via line rest hstate hread =>
      have hnone : ∀ param, Choices.selection? false param = none := by
        intro param
        cases hsome : Choices.selection? false param with
        | none => rfl
        | some a => exact absurd (Choices.selection?_eq_some_iff.mp hsome).1 (by simp)
      rw [profile_settle, Session.profile_perform, Choices.choose_eq, hoff]
      simp only [hnone, Option.getD_none, ite_self]
      rfl
  | overlong => rw [refuse, profile_say]; rfl
  | ended => rfl
  | failed => rfl
  | closed => rfl
  | shaken => rw [profile_settle, Session.profile_secure]

/-! ## Every step -/

/-- The rules that every step of a run obeys. -/
structure Restrained (host : Host σ κ) (r next : Run σ) : Prop where
  /-- A step without a command asks nothing. -/
  idle : r.hears? = none → r.session.ledger.Asks host.storage [] next.session.ledger
  /-- A step with a command asks what the command may ask, and nothing else. -/
  asks : ∀ {command s}, r.hears? = some (command, s) → ∃ asked,
    r.session.ledger.Asks host.storage asked next.session.ledger ∧
      command.Makes host r.session.profile.hash r.session.ledger.store asked
  /-- Only requests for changes change what calls that read do not change. -/
  keeps : ∀ {α : Type} {view : σ → α}, host.storage.ReadsKeep view →
    (∀ command s, r.hears? = some (command, s) → Text.upper command.verb ≠ "SITE") →
      view next.session.ledger.store = view r.session.ledger.store
  /-- A request for a change that is answered by a refusal has changed nothing that changes that
  fail do not change. -/
  refuses : ∀ {α : Type} {view : σ → α}, host.storage.FailuresKeep view →
    ∀ {command s}, r.hears? = some (command, s) → Text.upper command.verb = "SITE" →
      500 ≤ (s.answerTo host command).reply.code →
        view next.session.ledger.store = view r.session.ledger.store

theorem restrained_of_step {r next : Run σ} (h : Step host r next) : Restrained host r next := by
  rcases quiet_step h with
    ⟨hidle, hquiet⟩ | ⟨command, s, hhears, hprofile, ⟨level, text, hheard⟩, hafter⟩
  · refine ⟨fun _ => hquiet.asks _, ?_, ?_, ?_⟩
    · intro command s hhears
      rw [hidle] at hhears
      cases hhears
    · intro α view _ _
      rw [hquiet.store]
    · intro α view _ command s hhears
      rw [hidle] at hhears
      cases hhears
  · obtain ⟨asked, hanswered, hmakes⟩ := s.lends_answered host command
    have hlogged : r.session.ledger.Quiet s.ledger := hheard ▸ Ledger.quiet_log ..
    have hasks : r.session.ledger.Asks host.storage asked next.session.ledger :=
      ((hlogged.asks _).trans hanswered.asks).quiet hafter
    rw [hprofile, hlogged.store] at hmakes
    refine ⟨?_, ?_, ?_, ?_⟩
    · intro hidle
      rw [hidle] at hhears
      cases hhears
    · intro command' s' hhears'
      obtain ⟨rfl, rfl⟩ := Prod.mk.inj (Option.some.inj (hhears.symm.trans hhears'))
      exact ⟨asked, hasks, hmakes⟩
    · intro α view hkeep hother
      exact hasks.carried.view_eq hkeep (hmakes.reads (.inr (hother command s hhears)))
    · intro α view hfails command' s' hhears' hverb hcode
      obtain ⟨rfl, rfl⟩ := Prod.mk.inj (Option.some.inj (hhears.symm.trans hhears'))
      rw [hafter.store, Session.view_answered hfails hverb hcode, hlogged.store]

/-! ## Every run -/

/-- A kind of call that no command makes is never made. -/
theorem calls_avoid {P : Call → Prop} (havoid : ∀ command selected store calls,
    Command.Makes host command selected store calls → ∀ call ∈ calls, ¬ P call)
    {r next : Run σ} (h : Step host r next) (hr : ∀ call ∈ r.session.ledger.calls, ¬ P call) :
    ∀ call ∈ next.session.ledger.calls, ¬ P call := by
  have hrules := restrained_of_step h
  cases hhears : r.hears? with
  | none =>
      rw [(hrules.idle hhears).calls, List.append_nil]
      exact hr
  | some heard =>
      obtain ⟨asked, hasks, hmakes⟩ := hrules.asks hhears
      rw [hasks.calls, List.forall_mem_append]
      exact ⟨hr, havoid _ _ _ _ hmakes⟩

/-- A session asks its storage for what is switched on and for nothing else, however long it goes
on: no file is used without digests, and none but the preset algorithm is selected; no change is
made without requests for changes; and every step asks only what its command is for. -/
theorem calls_within_features (host : Host σ κ) (channel : Channel) (store : σ)
    {lines : List (List UInt8)} {last : Run σ}
    (h : Reaches host ⟨.greeting, { channel, ledger := { store } }⟩ lines last) :
    (host.settings.enableHash = false →
      (∀ call ∈ last.session.ledger.calls, ¬ call.UsesFile) ∧
        last.session.profile.hash = .sha256) ∧
    (host.settings.disableSite = true → ∀ call ∈ last.session.ledger.calls, ¬ call.Changes) ∧
    ∀ next, last.step host = some next → Restrained host last next := by
  refine ⟨fun hoff => ⟨?_, ?_⟩, fun hoff => ?_, fun next hstep => ?_⟩
  · refine h.invariant (P := fun r => ∀ call ∈ r.session.ledger.calls, ¬ call.UsesFile) ?_ ?_
    · intro r next hstep hr
      exact calls_avoid (fun _ _ _ _ hmakes => hmakes.not_usesFile hoff)
        (step_eq_some_iff.mp hstep) hr
    · simp [Ledger.calls]
  · refine h.invariant (P := fun r => r.session.profile.hash = .sha256) ?_ rfl
    intro r next hstep hr
    exact (hash_of_step hoff (step_eq_some_iff.mp hstep)).trans hr
  · refine h.invariant (P := fun r => ∀ call ∈ r.session.ledger.calls, ¬ call.Changes) ?_ ?_
    · intro r next hstep hr
      refine calls_avoid (fun _ _ _ _ hmakes call hcall => ?_) (step_eq_some_iff.mp hstep) hr
      exact (hmakes.reads (.inl hoff) call hcall).not_changes
    · simp [Ledger.calls]
  · exact restrained_of_step (step_eq_some_iff.mp hstep)

/-- A client that asks for a digest and for a change where neither is to be had. -/
theorem calls_within_features_off :
    let host := { Host.bare (.ok ()) with settings := { disableSite := true } }
    let inlet : Inlet := ⟨Text.bytes "HASH a\r\nSITE CHMOD 600 a\r\n", [.finish true]⟩
    let r : Run MemoryStore := ⟨.greeting, { channel := { inlet }, ledger := { store := [] } }⟩
    ∀ call ∈ (r.advance host).session.ledger.calls, ¬ call.UsesFile ∧ ¬ call.Changes := by
  intro host inlet r call hcall
  obtain ⟨hdigests, hchanges, -⟩ :=
    calls_within_features host { inlet } [] (reaches_advance host r)
  exact ⟨(hdigests rfl).1 call hcall, hchanges rfl call hcall⟩

end Run

end FtpControl

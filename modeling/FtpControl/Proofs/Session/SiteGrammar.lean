import FtpControl.Proofs.Session.DigestReplies
import FtpControl.Proofs.Session.Restraint
import FtpControl.Proofs.Text.Decoding
import FtpControl.Proofs.Text.Numerals

/-!
# The grammar of requests for changes

A request is a keyword, an argument and a path, with one space between them. Neither of the first
two has a space in it, while the path is all that follows, spaces included. Every parameter is a
request, or is refused in one of two ways; and a request is carried out by the one call that it
stands for.
-/

namespace FtpControl

variable {σ κ : Type}

namespace SiteRequest

/-! ## The grammar -/

/-- Whether a text names an owner: a user, or a user and a group, by their numbers. -/
inductive IsOwner (s : String) : Nat → Option Nat → Prop where
  | user {user} (h : Numeral.Denotes 10 s user) (hlt : user < 2 ^ 32) : IsOwner s user none
  | both {left right user group} (htext : s = left ++ ":" ++ right)
      (huser : Numeral.Denotes 10 left user) (hlt : user < 2 ^ 32)
      (hgroup : Numeral.Denotes 10 right group) (hlt' : group < 2 ^ 32) :
      IsOwner s user (some group)

/-- What a keyword asks for with an argument and a path. -/
inductive Means : Keyword → String → String → SiteRequest → Prop where
  | chmod {argument path permissions} (h : Numeral.Denotes 8 argument permissions)
      (hlt : permissions < 2 ^ 32) : Means .chmod argument path (.chmod permissions path)
  | chown {argument path user group} (h : IsOwner argument user group) :
      Means .chown argument path (.chown user group path)
  | symlink (target link : String) : Means .symlink target link (.symlink target link)

/-- How a parameter is read: as a request, or with the code of a refusal. -/
inductive Reading (param : String) : Except Nat SiteRequest → Prop where
  | request {k word argument path request}
      (hparam : param = word ++ " " ++ (argument ++ " " ++ path))
      (hword : Text.upper word = Keyword.name k) (hspace : ' ' ∉ argument.toList)
      (hmeans : Means k argument path request) : Reading param (.ok request)
  | unspaced {k word rest} (hparam : param = word ++ " " ++ rest)
      (hword : Text.upper word = Keyword.name k) (hspace : ' ' ∉ rest.toList) :
      Reading param (.error ReplyCode.badArguments)
  | malformed {k word argument path} (hparam : param = word ++ " " ++ (argument ++ " " ++ path))
      (hword : Text.upper word = Keyword.name k) (hspace : ' ' ∉ argument.toList)
      (hnone : ∀ request, ¬ Means k argument path request) :
      Reading param (.error ReplyCode.badArguments)
  | unknown (h : ∀ k word rest, Text.upper word = Keyword.name k → param ≠ word ++ " " ++ rest) :
      Reading param (.error ReplyCode.notUnderstood)

/-! ## Keywords and arguments -/

theorem Keyword.ofText?_eq_some_iff {word : String} {k : Keyword} :
    ofText? word = some k ↔ Text.upper word = k.name := by
  have hupper : ∀ k : Keyword, Text.upper k.name = k.name := by intro k; cases k <;> decide
  have hname : ∀ j k : Keyword, Text.upper j.name = Text.upper k.name → j = k := by
    intro j k
    cases j <;> cases k <;> decide
  simp only [ofText?, Text.sameKeyword]
  constructor
  · intro h
    have hsame := List.find?_some h
    rw [← hupper k]
    exact beq_iff_eq.mp hsame
  · intro h
    cases hfound : [chmod, chown, symlink].find? fun k => Text.upper word == Text.upper k.name with
    | none =>
        have hno := List.find?_eq_none.mp hfound k (by cases k <;> decide)
        simp [h, hupper] at hno
    | some j =>
        have hsame := List.find?_some hfound
        rw [beq_iff_eq, h, ← hupper k] at hsame
        rw [hname k j hsame]

/-- Keywords have no spaces in them. -/
theorem Keyword.notMem_of_upper {word : String} {k : Keyword} (h : Text.upper word = k.name) :
    ' ' ∉ word.toList :=
  Text.notMem_of_upper rfl h (by cases k <;> decide)

theorem readOwner?_eq_some_iff {s : String} {user : Nat} {group : Option Nat} :
    readOwner? s = some (user, group) ↔ IsOwner s user group := by
  constructor
  · intro h
    unfold readOwner? at h
    split at h
    · split at h
      · next n hread =>
          obtain ⟨rfl, rfl⟩ := Prod.mk.inj (Option.some.inj h)
          obtain ⟨hdenotes, hlt⟩ := Numeral.readId_eq_ok_iff.mp hread
          exact .user hdenotes hlt
      · simp at h
    · next left right hcut =>
        split at h
        · next n m huser hgroup =>
            obtain ⟨rfl, rfl⟩ := Prod.mk.inj (Option.some.inj h)
            obtain ⟨hleft, hlt⟩ := Numeral.readId_eq_ok_iff.mp huser
            obtain ⟨hright, hlt'⟩ := Numeral.readId_eq_ok_iff.mp hgroup
            refine .both (String.toList_injective ?_) hleft hlt hright hlt'
            rw [(Text.cut?_eq_some_iff.mp hcut).2]
            simp
        · simp at h
  · intro h
    cases h with
    | user hdenotes hlt =>
        have hcolon : ':' ∉ s.toList := hdenotes.notMem rfl (by decide)
        simp only [readOwner?, Text.cut?_of_notMem hcolon,
          Numeral.readId_eq_ok_iff.mpr ⟨hdenotes, hlt⟩]
    | @both left right user group htext huser hlt hgroup hlt' =>
        have hcut : Text.cut? ':' s = some (left, right) :=
          htext ▸ Text.cut?_join (huser.notMem rfl (by decide)) right
        simp only [readOwner?, hcut, Numeral.readId_eq_ok_iff.mpr ⟨huser, hlt⟩,
          Numeral.readId_eq_ok_iff.mpr ⟨hgroup, hlt'⟩]

theorem ofParts_eq_ok_iff {k : Keyword} {argument path : String} {request : SiteRequest} :
    ofParts k argument path = .ok request ↔ Means k argument path request := by
  constructor
  · intro h
    unfold ofParts at h
    split at h
    · split at h
      · next permissions hread =>
          obtain rfl := Except.ok.inj h
          obtain ⟨hdenotes, hlt⟩ := Numeral.readMode_eq_ok_iff.mp hread
          exact .chmod hdenotes hlt
      · simp at h
    · split at h
      · next user group hread =>
          obtain rfl := Except.ok.inj h
          exact .chown (readOwner?_eq_some_iff.mp hread)
      · simp at h
    · obtain rfl := Except.ok.inj h
      exact .symlink argument path
  · intro h
    cases h with
    | chmod hdenotes hlt => simp only [ofParts, Numeral.readMode_eq_ok_iff.mpr ⟨hdenotes, hlt⟩]
    | chown howner => simp only [ofParts, readOwner?_eq_some_iff.mpr howner]
    | symlink => rfl

/-- Arguments that are not well formed have one code. -/
theorem code_of_ofParts {k : Keyword} {argument path : String} {refusal : Refusal}
    (h : ofParts k argument path = .error refusal) :
    refusal.reply.code = ReplyCode.badArguments := by
  unfold ofParts at h
  split at h
  · split at h
    · simp at h
    · obtain rfl := Except.error.inj h
      rfl
  · split at h
    · simp at h
    · obtain rfl := Except.error.inj h
      rfl
  · simp at h

/-! ## Parameters -/

section

variable {k : Keyword} {word : String} (hword : Text.upper word = k.name)

include hword

theorem ofParam_of_unspaced {rest : String} (hspace : ' ' ∉ rest.toList) :
    ofParam (word ++ " " ++ rest) = .error (.usage k) := by
  have hcut : Text.cut? ' ' (word ++ " " ++ rest) = some (word, rest) :=
    Text.cut?_join (Keyword.notMem_of_upper hword) rest
  simp only [ofParam, hcut, Keyword.ofText?_eq_some_iff.mpr hword, Text.cut?_of_notMem hspace]

theorem ofParam_of_spaced {argument : String} (hspace : ' ' ∉ argument.toList) (path : String) :
    ofParam (word ++ " " ++ (argument ++ " " ++ path)) = ofParts k argument path := by
  have hcut : Text.cut? ' ' (word ++ " " ++ (argument ++ " " ++ path)) =
      some (word, argument ++ " " ++ path) := Text.cut?_join (Keyword.notMem_of_upper hword) _
  have hagain : Text.cut? ' ' (argument ++ " " ++ path) = some (argument, path) :=
    Text.cut?_join hspace path
  simp only [ofParam, hcut, Keyword.ofText?_eq_some_iff.mpr hword, hagain]

end

theorem ofParam_of_unknown {param : String}
    (h : ∀ k word rest, Text.upper word = Keyword.name k → param ≠ word ++ " " ++ rest) :
    ofParam param = .error .unknown := by
  rw [ofParam]
  split
  · rfl
  · next word rest hcut =>
      split
      · rfl
      · next k hk =>
          refine absurd (String.toList_injective ?_)
            (h k word rest (Keyword.ofText?_eq_some_iff.mp hk))
          rw [(Text.cut?_eq_some_iff.mp hcut).2]
          simp

/-- Every parameter is read in some way. -/
theorem exists_reading (param : String) : ∃ reading, Reading param reading := by
  by_cases hknown : ∃ k word rest, Text.upper word = Keyword.name k ∧ param = word ++ " " ++ rest
  · obtain ⟨k, word, rest, hword, hparam⟩ := hknown
    by_cases hspace : ' ' ∈ rest.toList
    · obtain ⟨argument, path, hfree, rfl⟩ := Text.exists_join hspace
      by_cases hmeans : ∃ request, Means k argument path request
      · obtain ⟨request, hmeans⟩ := hmeans
        exact ⟨_, .request hparam hword hfree hmeans⟩
      · exact ⟨_, .malformed hparam hword hfree (not_exists.mp hmeans)⟩
    · exact ⟨_, .unspaced hparam hword hspace⟩
  · exact ⟨_, .unknown fun k word rest hword hparam => hknown ⟨k, word, rest, hword, hparam⟩⟩

/-- A reading of a parameter is what becomes of it. -/
theorem Reading.eq_ofParam {param : String} {reading : Except Nat SiteRequest}
    (h : Reading param reading) :
    reading = (ofParam param).mapError fun refusal => refusal.reply.code := by
  cases h with
  | request hparam hword hspace hmeans =>
      rw [hparam, ofParam_of_spaced hword hspace, ofParts_eq_ok_iff.mpr hmeans]
      rfl
  | unspaced hparam hword hspace =>
      rw [hparam, ofParam_of_unspaced hword hspace]
      rfl
  | @malformed k word argument path hparam hword hspace hnone =>
      rw [hparam, ofParam_of_spaced hword hspace]
      cases hparts : ofParts k argument path with
      | ok request => exact absurd (ofParts_eq_ok_iff.mp hparts) (hnone request)
      | error refusal => simp only [Except.mapError, code_of_ofParts hparts]
  | unknown hnone =>
      rw [ofParam_of_unknown hnone]
      rfl

/-- A parameter is read in one way only. -/
theorem reading_iff {param : String} {reading : Except Nat SiteRequest} :
    Reading param reading ↔
      reading = (ofParam param).mapError fun refusal => refusal.reply.code := by
  refine ⟨Reading.eq_ofParam, ?_⟩
  rintro rfl
  obtain ⟨reading, h⟩ := exists_reading param
  exact h.eq_ofParam ▸ h

theorem reading_ok_iff {param : String} {request : SiteRequest} :
    Reading param (.ok request) ↔ ofParam param = .ok request := by
  rw [reading_iff]
  cases ofParam param <;> simp [Except.mapError, eq_comm]

/-! ## Replies -/

theorem respond_of_request {host : Host σ κ} (henabled : host.settings.disableSite = false)
    {param : String} {request : SiteRequest} (h : Reading param (.ok request)) (l : Ledger σ) :
    l.Asks host.storage [request.call] (respond host param l).2 ∧
      (respond host param l).1.code =
        match (request.perform host.storage l).1 with
        | .ok () => ReplyCode.done
        | .error _ => ReplyCode.notTaken := by
  have hperform := (request.lends_perform host.storage l).asks
  simp only [respond, henabled, reading_ok_iff.mp h, answer, Bool.false_eq_true, if_false]
  rcases hdone : request.perform host.storage l with ⟨f | _, m⟩
  · rw [hdone] at hperform
    exact ⟨hperform.quiet (Ledger.quiet_log ..), rfl⟩
  · rw [hdone] at hperform
    exact ⟨hperform, rfl⟩

theorem respond_of_refusal {host : Host σ κ} (henabled : host.settings.disableSite = false)
    {param : String} {code : Nat} (h : Reading param (.error code)) (l : Ledger σ) :
    (respond host param l).2 = l ∧ (respond host param l).1.code = code := by
  have hreading := h.eq_ofParam
  cases hparam : ofParam param with
  | ok request => simp [hparam, Except.mapError] at hreading
  | error refusal =>
      simp only [hparam, Except.mapError, Except.error.injEq] at hreading
      simp only [respond, henabled, hparam, Bool.false_eq_true, if_false, hreading, and_self]

end SiteRequest

namespace Session

/-- Every parameter is a request or is refused, and only one of both. A request makes the one call
that it stands for and is answered by whether that was granted; what is refused makes none. -/
theorem site_serves_grammar (host : Host σ κ) (henabled : host.settings.disableSite = false)
    {command : Command} (hverb : Text.upper command.verb = "SITE") {s : Session σ}
    {via : Protection} (hlive : s.channel.state = .live via) :
    (∃ reading, ∀ other, SiteRequest.Reading command.param other ↔ other = reading) ∧
    (∀ request, SiteRequest.Reading command.param (.ok request) →
      s.ledger.Asks host.storage [request.call] (s.dispatch host command).2.ledger ∧
      ((s.answerTo host command).reply.code = 200 ↔
        (request.perform host.storage s.ledger).1 = .ok ()) ∧
      ((s.answerTo host command).reply.code = 550 ↔
        ∃ f, (request.perform host.storage s.ledger).1 = .error f)) ∧
    (∀ code, SiteRequest.Reading command.param (.error code) →
      s.ledger.Asks host.storage [] (s.dispatch host command).2.ledger ∧
      (s.answerTo host command).reply.code = code) ∧
    ∃ delivered, (s.dispatch host command).2.ledger.written =
        s.ledger.written ++ [(via, delivered)] ∧
      delivered <+: s.replyBytes host command ∧
      (s.channel.outlet.Takes via (s.replyBytes host command) →
        delivered = s.replyBytes host command) := by
  have hquiet := quiet_dispatch host command s
  rw [answered, answerTo_site host hverb] at hquiet
  rw [answerTo_site host hverb]
  refine ⟨⟨_, fun other => SiteRequest.reading_iff⟩, fun request hreading => ?_,
    fun code hreading => ?_, ?_⟩
  · obtain ⟨hasks, hcode⟩ := SiteRequest.respond_of_request henabled hreading s.ledger
    refine ⟨hasks.quiet hquiet, ?_⟩
    simp only [Answer.ofReply, hcode]
    cases (request.perform host.storage s.ledger).1 with
    | ok => simp
    | error f => simp
  · obtain ⟨hledger, hcode⟩ := SiteRequest.respond_of_refusal henabled hreading s.ledger
    rw [← hcode]
    refine ⟨?_, rfl⟩
    simp only [Answer.ofReply, hledger] at hquiet
    exact hquiet.asks _
  · have hpassage := passage_of_dispatch (show s.dispatch host command = (_, _) from rfl)
    rw [hlive] at hpassage
    obtain ⟨delivered, rest, hwritten, hcut, hall⟩ := hpassage.of_live
    refine ⟨delivered, hwritten, ⟨rest, hcut.symm⟩, fun htakes => ?_⟩
    rw [hcut, hall htakes, List.append_nil]

/-- A path that begins with a space, a group that is missing, and a keyword alone. -/
theorem site_serves_grammar_spaced :
    let host := { Host.bare (.ok ()) with storage := MemoryStore.complete false }
    let s : Session MemoryStore := { channel := {}, ledger := { store := [] } }
    (s.ledger.Asks host.storage [.chmod " a" 0o644]
        (s.dispatch host ⟨"site", "ChMod +0644  a"⟩).2.ledger ∧
      (s.answerTo host ⟨"site", "ChMod +0644  a"⟩).reply.code = 550) ∧
    (s.answerTo host ⟨"SITE", "CHOWN 1: a"⟩).reply.code = 501 ∧
    (s.answerTo host ⟨"SITE", "SYMLINK"⟩).reply.code = 500 := by
  intro host s
  refine ⟨?_, ?_, ?_⟩
  · obtain ⟨-, hrequest, -⟩ := site_serves_grammar host rfl
      (show Text.upper (Command.mk "site" "ChMod +0644  a").verb = "SITE" by decide)
      (show s.channel.state = .live .clear from rfl)
    have hmode : Numeral.Denotes 8 "+0644" 0o644 :=
      .intro ['+'] ['0', '6', '4', '4'] rfl (.inr rfl) (by decide)
        (by simp [Numeral.IsDigit]) rfl
    obtain ⟨hasks, -, hfailed⟩ := hrequest (.chmod 0o644 " a")
      (.request rfl (show Text.upper "ChMod" = _ by decide) (by decide) (.chmod hmode (by decide)))
    exact ⟨hasks, hfailed.mpr ⟨_, rfl⟩⟩
  · obtain ⟨-, -, hrefused, -⟩ := site_serves_grammar host rfl
      (show Text.upper (Command.mk "SITE" "CHOWN 1: a").verb = "SITE" by decide)
      (show s.channel.state = .live .clear from rfl)
    exact (hrefused 501 (SiteRequest.reading_iff.mpr (by rfl))).2
  · obtain ⟨-, -, hrefused, -⟩ := site_serves_grammar host rfl
      (show Text.upper (Command.mk "SITE" "SYMLINK").verb = "SITE" by decide)
      (show s.channel.state = .live .clear from rfl)
    exact (hrefused 500 (SiteRequest.reading_iff.mpr (by rfl))).2

end Session

end FtpControl

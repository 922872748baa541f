import FtpControl.Proofs.Session.SiteGrammar

/-!
# The bounds that legacy digest verbs take

A parameter is cut at its first two spaces into a path and at most two bounds, the second of which
takes all that is left. Bounds name a range exactly if they are numerals, in order, and within the
size of the file; otherwise the first that is at fault is named, and nothing is opened.
-/

namespace FtpControl

variable {σ κ : Type}

/-! ## Ranges that bounds name -/

namespace ByteRange

/-- Whether a bound is what a token says, or the preset where there is none. -/
inductive Bound (preset : Nat) : Option String → Nat → Prop where
  | absent : Bound preset none preset
  | given {token n} (h : Numeral.Denotes 10 token n) (hlt : n < 2 ^ 64) :
      Bound preset (some token) n

/-- Whether a token is no bound, and why it is not read as one. -/
structure Malformed (token : String) (cause : NumeralError) : Prop where
  none : ∀ preset n, ¬ Bound preset (some token) n
  cause : Numeral.readOffset token = .error cause

/-- The refusals of bounds, by the first that is at fault. -/
inductive Refused (tokens : List String) (size : Nat) : Failure → Prop where
  | start {token cause} (htoken : tokens[0]? = some token) (hbad : Malformed token cause) :
      Refused tokens size
        ⟨.invalidArgument, "invalid start offset " ++ token ++ ": " ++ cause.message⟩
  | stop {start token cause} (hstart : Bound 0 tokens[0]? start) (htoken : tokens[1]? = some token)
      (hbad : Malformed token cause) :
      Refused tokens size
        ⟨.invalidArgument, "invalid end offset " ++ token ++ ": " ++ cause.message⟩
  /-- Both bounds can be read, but what they name is not within the file. -/
  | outside {start stop} (hstart : Bound 0 tokens[0]? start) (hstop : Bound size tokens[1]? stop)
      (hout : ¬ (start ≤ stop ∧ stop ≤ size)) :
      Refused tokens size
        ⟨.invalidArgument, "invalid range " ++ toString start ++ "-" ++ toString stop ++
          " for a file of " ++ toString size ++ " bytes"⟩

variable {refuse : String → NumeralError → Refusal} {token : String} {cause : NumeralError}
  {preset size n start stop : Nat} {given : Option String} {tokens : List String}
  {range : ByteRange} {f : Failure}

theorem bound_some_iff : Bound preset (some token) n ↔ Numeral.readOffset token = .ok n := by
  rw [Numeral.readOffset_eq_ok_iff]
  constructor
  · rintro ⟨⟩
    exact ⟨‹_›, ‹_›⟩
  · rintro ⟨h, hlt⟩
    exact .given h hlt

theorem readBound_of_bound (h : Bound preset given n) : readBound refuse given preset = .ok n := by
  cases given with
  | none =>
      cases h
      rfl
  | some token => simp only [readBound, bound_some_iff.mp h]

theorem readBound_of_malformed (h : Malformed token cause) :
    readBound refuse (some token) preset = .error (refuse token cause) := by
  simp only [readBound, h.cause]

theorem bound_or_malformed (preset : Nat) (given : Option String) :
    (∃ n, Bound preset given n) ∨ ∃ token cause, given = some token ∧ Malformed token cause := by
  cases given with
  | none => exact .inl ⟨preset, .absent⟩
  | some token =>
      cases hread : Numeral.readOffset token with
      | ok n => exact .inl ⟨n, bound_some_iff.mpr hread⟩
      | error cause =>
          refine .inr ⟨token, cause, rfl, fun preset n h => ?_, hread⟩
          rw [bound_some_iff, hread] at h
          cases h

/-- What becomes of bounds that can both be read. -/
theorem ofTokens_of_bounds (hstart : Bound 0 tokens[0]? start)
    (hstop : Bound size tokens[1]? stop) :
    ofTokens tokens size =
      if start ≤ stop ∧ stop ≤ size then .ok ⟨start, stop⟩
      else .error (.bounds start stop size) := by
  simp only [ofTokens, readBound_of_bound hstart, readBound_of_bound hstop, bind, Except.bind]
  by_cases hin : start ≤ stop ∧ stop ≤ size
  · rw [if_pos hin, if_neg (by omega)]
  · rw [if_neg hin, if_pos (by omega)]

theorem Refused.eq_ofTokens (h : Refused tokens size f) :
    (ofTokens tokens size).mapError Refusal.toFailure = .error f := by
  cases h with
  | start htoken hbad =>
      simp only [ofTokens, htoken, readBound_of_malformed hbad, bind, Except.bind]
      rfl
  | stop hstart htoken hbad =>
      simp only [ofTokens, htoken, readBound_of_bound hstart, readBound_of_malformed hbad, bind,
        Except.bind]
      rfl
  | outside hstart hstop hout =>
      rw [ofTokens_of_bounds hstart hstop, if_neg hout]
      rfl

/-- Tokens name a range, or they are refused. -/
theorem ok_or_refused (tokens : List String) (size : Nat) :
    (∃ start stop, Bound 0 tokens[0]? start ∧ Bound size tokens[1]? stop ∧
      start ≤ stop ∧ stop ≤ size) ∨ ∃ f, Refused tokens size f := by
  rcases bound_or_malformed 0 tokens[0]? with ⟨start, hstart⟩ | ⟨token, cause, htoken, hbad⟩
  · rcases bound_or_malformed size tokens[1]? with ⟨stop, hstop⟩ | ⟨token, cause, htoken, hbad⟩
    · by_cases hin : start ≤ stop ∧ stop ≤ size
      · exact .inl ⟨start, stop, hstart, hstop, hin⟩
      · exact .inr ⟨_, .outside hstart hstop hin⟩
    · exact .inr ⟨_, .stop hstart htoken hbad⟩
  · exact .inr ⟨_, .start htoken hbad⟩

/-- Tokens name a range exactly if its bounds are what they say, in order, and within the size. -/
theorem ofTokens_eq_ok_iff :
    ofTokens tokens size = .ok range ↔
      Bound 0 tokens[0]? range.start ∧ Bound size tokens[1]? range.stop ∧
        range.start ≤ range.stop ∧ range.stop ≤ size := by
  constructor
  · intro h
    rcases ok_or_refused tokens size with ⟨start, stop, hstart, hstop, hin⟩ | ⟨f, hrefused⟩
    · rw [ofTokens_of_bounds hstart hstop, if_pos hin] at h
      obtain rfl := Except.ok.inj h
      exact ⟨hstart, hstop, hin⟩
    · have hnone := hrefused.eq_ofTokens
      rw [h] at hnone
      cases hnone
  · rintro ⟨hstart, hstop, hin⟩
    rw [ofTokens_of_bounds hstart hstop, if_pos hin]

/-- Tokens that name no range are refused, by the failure that tells the fault. -/
theorem ofTokens_eq_error_iff :
    (ofTokens tokens size).mapError Refusal.toFailure = .error f ↔ Refused tokens size f := by
  refine ⟨fun h => ?_, Refused.eq_ofTokens⟩
  rcases ok_or_refused tokens size with ⟨start, stop, hstart, hstop, hin⟩ | ⟨f', hrefused⟩
  · rw [ofTokens_of_bounds hstart hstop, if_pos hin] at h
    cases h
  · obtain rfl := Except.error.inj (hrefused.eq_ofTokens.symm.trans h)
    exact hrefused

end ByteRange

/-! ## Bounds in a parameter -/

namespace Digests

/-- How a parameter is cut at its first two spaces. -/
inductive Arguments (param : String) : String → List String → Prop where
  | whole (hspace : ' ' ∉ param.toList) : Arguments param param []
  | started {path first} (hparam : param = path ++ " " ++ first) (hpath : ' ' ∉ path.toList)
      (hfirst : ' ' ∉ first.toList) : Arguments param path [first]
  /-- What follows the second space is one bound, whatever spaces are in it. -/
  | bounded {path first last} (hparam : param = path ++ " " ++ (first ++ " " ++ last))
      (hpath : ' ' ∉ path.toList) (hfirst : ' ' ∉ first.toList) :
      Arguments param path [first, last]

variable {param path : String} {tokens : List String}

theorem Arguments.eq_pathAndBounds (h : Arguments param path tokens) :
    (path, tokens) = pathAndBounds param := by
  cases h with
  | whole hspace => exact (Request.pathAndBounds_of_notMem hspace).symm
  | @started _ first hparam hpath hfirst =>
      have hcut : Text.cut? ' ' param = some (path, first) := hparam ▸ Text.cut?_join hpath first
      simp only [pathAndBounds, Text.cutUpTo, hcut, Text.cut?_of_notMem hfirst]
  | @bounded _ first last hparam hpath hfirst =>
      have hcut : Text.cut? ' ' param = some (path, first ++ " " ++ last) :=
        hparam ▸ Text.cut?_join hpath _
      have hagain : Text.cut? ' ' (first ++ " " ++ last) = some (first, last) :=
        Text.cut?_join hfirst last
      simp only [pathAndBounds, Text.cutUpTo, hcut, hagain]

theorem exists_arguments (param : String) : ∃ path tokens, Arguments param path tokens := by
  by_cases hspace : ' ' ∈ param.toList
  · obtain ⟨path, bounds, hpath, hparam⟩ := Text.exists_join hspace
    by_cases hagain : ' ' ∈ bounds.toList
    · obtain ⟨first, last, hfirst, rfl⟩ := Text.exists_join hagain
      exact ⟨path, [first, last], .bounded hparam hpath hfirst⟩
    · exact ⟨path, [bounds], .started hparam hpath hagain⟩
  · exact ⟨param, [], .whole hspace⟩

/-- A parameter is cut in one way only. -/
theorem arguments_iff : Arguments param path tokens ↔ (path, tokens) = pathAndBounds param := by
  refine ⟨Arguments.eq_pathAndBounds, fun h => ?_⟩
  obtain ⟨path', tokens', hcut⟩ := exists_arguments param
  obtain ⟨rfl, rfl⟩ := Prod.mk.inj (h.trans hcut.eq_pathAndBounds.symm)
  exact hcut

/-- Bounds that are refused are told as such, and nothing but the file's description is asked
for. -/
theorem find_of_refused (host : Host σ κ) {r : Request} {l : Ledger σ} {info : FileInfo}
    {f : Failure} (hstat : (host.storage.stat r.path l.store).1 = .ok info)
    (hkind : info.isRegular = true) (h : ByteRange.Refused r.bounds info.size f) :
    (r.find host l).1 = .error (.message ReplyCode.badArguments f.message) ∧
      l.Asks host.storage [.stat r.path] (r.find host l).2 := by
  have hasks := (l.lends_stat host.storage none r.path).asks
  rcases hdescribed : l.stat host.storage r.path with ⟨_ | info', m⟩
  · cases (congrArg Prod.fst hdescribed).symm.trans hstat
  · obtain rfl := Except.ok.inj ((congrArg Prod.fst hdescribed).symm.trans hstat)
    rw [hdescribed] at hasks
    cases hrange : ByteRange.ofTokens r.bounds info'.size with
    | ok range =>
        have hrefused := h.eq_ofTokens
        rw [hrange] at hrefused
        cases hrefused
    | error refusal =>
        have hrefused := h.eq_ofTokens
        rw [hrange] at hrefused
        obtain rfl := Except.error.inj hrefused
        simp only [Request.find, regular, hdescribed, hkind, if_true, hrange]
        exact ⟨rfl, hasks⟩

end Digests

/-! ## Replies -/

namespace Session

open Digests

/-- A parameter is cut in one way into a path and bounds, and for every size the bounds name a range
within it or are refused. Of a regular file, refused bounds are told by code 501 with the fault,
and the file is described but never opened. -/
theorem legacy_bounds_checked (host : Host σ κ) (hoffers : host.settings.enableHash = true)
    {command : Command} {a : HashAlgorithm}
    (hverb : HashAlgorithm.ofLegacyVerb? (Text.upper command.verb) = some a) :
    ∃ path tokens,
      (∀ p ts, Arguments command.param p ts ↔ p = path ∧ ts = tokens) ∧
      (∀ size range, ByteRange.ofTokens tokens size = .ok range ↔
        ByteRange.Bound 0 tokens[0]? range.start ∧ ByteRange.Bound size tokens[1]? range.stop ∧
          range.start ≤ range.stop ∧ range.stop ≤ size) ∧
      (∀ size f, (ByteRange.ofTokens tokens size).mapError ByteRange.Refusal.toFailure = .error f ↔
        ByteRange.Refused tokens size f) ∧
      ∀ {s : Session σ} {info f}, (host.storage.stat path s.ledger.store).1 = .ok info →
        info.isRegular = true → ByteRange.Refused tokens info.size f →
          (s.answerTo host command).reply = .message 501 f.message ∧
          s.ledger.Asks host.storage [.stat path] (s.dispatch host command).2.ledger ∧
          ∀ {via}, s.channel.state = .live via →
            ∃ delivered, (s.dispatch host command).2.ledger.written =
                s.ledger.written ++ [(via, delivered)] ∧
              delivered <+: s.replyBytes host command ∧
              (s.channel.outlet.Takes via (s.replyBytes host command) →
                delivered = s.replyBytes host command) := by
  refine ⟨(pathAndBounds command.param).1, (pathAndBounds command.param).2, ?_,
    fun _ _ => ByteRange.ofTokens_eq_ok_iff, fun _ _ => ByteRange.ofTokens_eq_error_iff, ?_⟩
  · intro p ts
    rw [arguments_iff, Prod.ext_iff]
  · intro s info f hstat hkind hrefused
    obtain ⟨hreply, hasks⟩ :=
      find_of_refused host (r := .bounded a command.param) hstat hkind hrefused
    have hquiet := quiet_dispatch host command s
    have hanswer := s.answerTo_legacy hoffers hverb
    rw [answered, hanswer] at hquiet
    rw [hanswer, hreply]
    exact ⟨rfl, hasks.quiet hquiet, fun hlive => dispatch_writes_reply host command hlive⟩

/-- A space too many before the second bound, two empty bounds, and bounds in the wrong order. -/
theorem legacy_bounds_checked_spaced :
    let host : Host MemoryStore MemoryHandle :=
      { settings := { enableHash := true }, storage := MemoryStore.complete false
        tls := .ok (), id := "1" }
    let hello : MemoryEntry :=
      { path := "a", info := { name := "a", kind := .file, size := 5 }
        data := [104, 101, 108, 108, 111] }
    let s : Session MemoryStore := { channel := {}, ledger := { store := [hello] } }
    ((s.answerTo host ⟨"xcrc", "a 1  4"⟩).reply =
        .message 501 "invalid end offset  4: invalid digit found in string" ∧
      s.ledger.Asks host.storage [.stat "a"] (s.dispatch host ⟨"xcrc", "a 1  4"⟩).2.ledger) ∧
    (s.answerTo host ⟨"XMD5", "a  "⟩).reply =
      .message 501 "invalid start offset : cannot parse integer from empty string" ∧
    (s.answerTo host ⟨"XSHA", "a +4 2"⟩).reply =
      .message 501 "invalid range 4-2 for a file of 5 bytes" := by
  intro host hello s
  have hstat : (host.storage.stat "a" s.ledger.store).1 = .ok hello.info := rfl
  refine ⟨?_, ?_, ?_⟩
  · have hverb : HashAlgorithm.ofLegacyVerb?
        (Text.upper (⟨"xcrc", "a 1  4"⟩ : Command).verb) = some .crc32 := by decide
    obtain ⟨path, tokens, hcut, -, hfaults, htold⟩ := legacy_bounds_checked host rfl hverb
    obtain ⟨rfl, rfl⟩ := (hcut "a" ["1", " 4"]).mp (.bounded rfl (by decide) (by decide))
    obtain ⟨hreply, hasks, -⟩ := htold hstat rfl ((hfaults 5 _).mp rfl)
    exact ⟨hreply, hasks⟩
  · have hverb : HashAlgorithm.ofLegacyVerb?
        (Text.upper (⟨"XMD5", "a  "⟩ : Command).verb) = some .md5 := by decide
    obtain ⟨path, tokens, hcut, -, hfaults, htold⟩ := legacy_bounds_checked host rfl hverb
    obtain ⟨rfl, rfl⟩ := (hcut "a" ["", ""]).mp (.bounded rfl (by decide) (by decide))
    exact (htold hstat rfl ((hfaults 5 _).mp rfl)).1
  · have hverb : HashAlgorithm.ofLegacyVerb?
        (Text.upper (⟨"XSHA", "a +4 2"⟩ : Command).verb) = some .sha1 := by decide
    obtain ⟨path, tokens, hcut, -, hfaults, htold⟩ := legacy_bounds_checked host rfl hverb
    obtain ⟨rfl, rfl⟩ := (hcut "a" ["+4", "2"]).mp (.bounded rfl (by decide) (by decide))
    exact (htold hstat rfl ((hfaults 5 _).mp rfl)).1

end Session

end FtpControl

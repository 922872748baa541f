import Mathlib
import FtpControl.Proofs.Session.DigestRequests
import FtpControl.Proofs.Storage.Serving

/-!
# What replies say of digests

A digest that is told is true, and is written with its algorithm and, for a whole file, with the
range that it covers. Where none can be told, both kinds of verb say so alike.
-/

namespace FtpControl

open Text

variable {σ κ : Type}

/-! ## On the wire -/

namespace Digests.Request

variable {st : Storage σ κ} {r : Request} {found : Finding} {l : Ledger σ}

theorem render_tellWhole (h : r.Attests st found l) (a : HashAlgorithm) {path : String}
    (hpath : IsSingle path) :
    (tellWhole a path found).render =
      "213-Computing " ++ a.name ++ " digest\r\n213 " ++ a.name ++ " 0-" ++
        toString found.size ++ " " ++ found.hex ++ " " ++ path ++ "\r\n" := by
  have hhex := Numeral.isSingle_of_all_isHexDigit h.lowercase.2
  have hrange : IsSingle (a.name ++ " 0-" ++ toString found.size) :=
    (a.isSingle_name.append (by decide)).append (Numeral.isSingle_toString _)
  have hlast : IsSingle (wholeLine a found.size found.hex path) :=
    (((hrange.append (by decide)).append hhex).append (by decide)).append hpath
  have hne : wholeLine a found.size found.hex path ≠ "" := by
    intro hempty
    have hnone := congrArg String.toList hempty
    simp [wholeLine] at hnone
  have hcode : Reply.codeText ReplyCode.fileStatus = "213" := by decide
  rw [tellWhole, render_heading_append hlast hne, wholeLine, hcode]
  apply String.toList_injective
  simp

theorem render_tellBounded (h : r.Attests st found l) (a : HashAlgorithm) :
    (tellBounded a found).render =
      "250-Computing " ++ a.name ++ " digest\r\n250 " ++ found.hex ++ "\r\n" := by
  have hhex := Numeral.isSingle_of_all_isHexDigit h.lowercase.2
  have hcode : Reply.codeText ReplyCode.fileDone = "250" := by decide
  rw [tellBounded, render_heading_append hhex h.lowercase.1, hcode]
  apply String.toList_injective
  simp

end Digests.Request

/-! ## Verbs -/

namespace Verb

theorem ofText_hash {word : String} (h : Text.upper word = "HASH") : ofText true word = hash := by
  rw [ofText, h]
  decide

theorem ofText_legacy {word : String} {a : HashAlgorithm}
    (h : HashAlgorithm.ofLegacyVerb? (Text.upper word) = some a) :
    ofText true word = legacy a := by
  have hall : ∀ p ∈ HashAlgorithm.legacyVerbs, ofUpper true p.1 = legacy p.2 := by decide
  obtain ⟨before, after, hverbs, -⟩ := List.lookup_eq_some_iff.mp h
  apply hall (Text.upper word, a)
  rw [hverbs]
  exact List.mem_append_right before List.mem_cons_self

end Verb

namespace Session

open Digests Digests.Request

variable {host : Host σ κ} {command : Command}

theorem reply_hash (hoffers : host.settings.enableHash = true) (s : Session σ)
    (hverb : Text.upper command.verb = "HASH") :
    (s.answerTo host command).reply =
      toReply (tellWhole s.profile.hash command.param)
        ((whole s.profile.hash command.param).find host s.ledger).1 := by
  rw [answerTo, Answer.toCommand, hoffers, Verb.ofText_hash hverb]
  exact congrArg Prod.fst (ofWhole_eq ..)

theorem answerTo_legacy (hoffers : host.settings.enableHash = true) (s : Session σ)
    {a : HashAlgorithm} (hverb : HashAlgorithm.ofLegacyVerb? (Text.upper command.verb) = some a) :
    s.answerTo host command = Answer.ofReply s.profile
      (toReply (tellBounded a) ((bounded a command.param).find host s.ledger).1,
        ((bounded a command.param).find host s.ledger).2) := by
  rw [answerTo, Answer.toCommand, hoffers, Verb.ofText_legacy hverb]
  exact congrArg (Answer.ofReply s.profile) (ofBounds_eq ..)

theorem reply_legacy (hoffers : host.settings.enableHash = true) (s : Session σ)
    {a : HashAlgorithm} (hverb : HashAlgorithm.ofLegacyVerb? (Text.upper command.verb) = some a) :
    (s.answerTo host command).reply =
      toReply (tellBounded a) ((bounded a command.param).find host s.ledger).1 := by
  rw [s.answerTo_legacy hoffers hverb]
  rfl

/-- A dispatch on an open channel writes its reply, or the front of it that the peer takes. -/
theorem dispatch_writes_front (host : Host σ κ) (command : Command) {s : Session σ}
    {via : Protection} (hlive : s.channel.state = .live via) :
    ∃ delivered, (s.dispatch host command).2.ledger.written =
        s.ledger.written ++ [(via, delivered)] ∧
      delivered <+: s.replyBytes host command := by
  obtain ⟨delivered, hwritten, hfront, -⟩ := dispatch_writes_reply host command hlive
  exact ⟨delivered, hwritten, hfront⟩

/-- A digest that is told of a whole file is true. -/
theorem hash_told_or_refused (hoffers : host.settings.enableHash = true) (s : Session σ)
    (hparam : IsSingle command.param) (hverb : Text.upper command.verb = "HASH") :
    let r := whole s.profile.hash command.param
    (∃ size hex, r.Attests host.storage ⟨size, ⟨0, size⟩, hex⟩ s.ledger ∧
      s.replyBytes host command = Text.bytes
        ("213-Computing " ++ r.algorithm.name ++ " digest\r\n213 " ++ r.algorithm.name ++ " 0-" ++
          toString size ++ " " ++ hex ++ " " ++ command.param ++ "\r\n")) ∨
      r.Refused host.storage s.ledger (s.answerTo host command).reply := by
  intro r
  have hcourse := course_find host r s.ledger
  have hreply := s.reply_hash hoffers hverb
  rw [replyBytes, hreply]
  cases hfound : (r.find host s.ledger).1 with
  | error refusal =>
      rw [hfound] at hcourse
      cases hcourse with
      | refused h => exact .inr h
  | ok found =>
      rw [hfound] at hcourse
      cases hcourse with
      | told h =>
          obtain ⟨size, range, hex⟩ := found
          have hrange : ByteRange.ofTokens [] size = .ok range := h.named
          rw [ByteRange.ofTokens_nil, Except.ok.injEq] at hrange
          subst hrange
          exact .inl ⟨size, hex, h, congrArg Text.bytes (render_tellWhole h _ hparam)⟩

/-- A digest that is told of a range is true. -/
theorem legacy_told_or_refused (hoffers : host.settings.enableHash = true) (s : Session σ)
    {a : HashAlgorithm} (hverb : HashAlgorithm.ofLegacyVerb? (Text.upper command.verb) = some a) :
    let r := bounded a command.param
    (∃ found, r.Attests host.storage found s.ledger ∧
      s.replyBytes host command = Text.bytes
        ("250-Computing " ++ a.name ++ " digest\r\n250 " ++ found.hex ++ "\r\n")) ∨
      r.Refused host.storage s.ledger (s.answerTo host command).reply := by
  intro r
  have hcourse := course_find host r s.ledger
  have hreply := s.reply_legacy hoffers hverb
  rw [replyBytes, hreply]
  cases hfound : (r.find host s.ledger).1 with
  | error refusal =>
      rw [hfound] at hcourse
      cases hcourse with
      | refused h => exact .inr h
  | ok found =>
      rw [hfound] at hcourse
      cases hcourse with
      | told h => exact .inl ⟨found, h, congrArg Text.bytes (render_tellBounded h _)⟩

/-- On the same files, both verbs tell the same digest or refuse alike. -/
theorem hash_agrees_with_legacy (hoffers : host.settings.enableHash = true) {s t : Session σ}
    {legacy : Command} (hstore : s.ledger.store = t.ledger.store)
    (hverb : Text.upper command.verb = "HASH")
    (hlegacy : HashAlgorithm.ofLegacyVerb? (Text.upper legacy.verb) = some s.profile.hash)
    (hparam : legacy.param = command.param) (hspace : ' ' ∉ command.param.toList) :
    (∃ found : Finding,
      (s.answerTo host command).reply = tellWhole s.profile.hash command.param found ∧
        (t.answerTo host legacy).reply = tellBounded s.profile.hash found) ∨
      ((s.answerTo host command).reply = (t.answerTo host legacy).reply ∧
        ((s.answerTo host command).reply.code = ReplyCode.notTaken ∨
          (s.answerTo host command).reply.code = ReplyCode.notAllowed)) := by
  have hcourse := course_find host (whole s.profile.hash command.param) s.ledger
  have hsame := find_congr host (whole s.profile.hash command.param) hstore
  rw [s.reply_hash hoffers hverb, t.reply_legacy hoffers hlegacy, hparam,
    bounded_of_notMem _ hspace, ← hsame]
  cases hfound : ((whole s.profile.hash command.param).find host s.ledger).1 with
  | error refusal =>
      rw [hfound] at hcourse
      cases hcourse with
      | refused h => exact .inr ⟨rfl, h.code_of_nil rfl⟩
  | ok found => exact .inl ⟨found, rfl, rfl⟩

/-- Replies to digest verbs tell the truth: a digest is told only of a regular file, and is that of
the bytes in the range that was asked for. Where none is told, neither the range nor the algorithm
is at fault. Both kinds of verb agree on the same files. -/
theorem digest_replies_true (host : Host σ κ) (hoffers : host.settings.enableHash = true)
    (s : Session σ) (command : Command) (hparam : IsSingle command.param) :
    (∀ {via}, s.channel.state = .live via →
      ∃ delivered, (s.dispatch host command).2.ledger.written =
          s.ledger.written ++ [(via, delivered)] ∧
        delivered <+: s.replyBytes host command) ∧
    (Text.upper command.verb = "HASH" →
      let r := whole s.profile.hash command.param
      (∃ size hex, r.Attests host.storage ⟨size, ⟨0, size⟩, hex⟩ s.ledger ∧
        s.replyBytes host command = Text.bytes
          ("213-Computing " ++ r.algorithm.name ++ " digest\r\n213 " ++ r.algorithm.name ++
            " 0-" ++ toString size ++ " " ++ hex ++ " " ++ command.param ++ "\r\n")) ∨
        r.Refused host.storage s.ledger (s.answerTo host command).reply) ∧
    (∀ a, HashAlgorithm.ofLegacyVerb? (Text.upper command.verb) = some a →
      let r := bounded a command.param
      (∃ found, r.Attests host.storage found s.ledger ∧
        s.replyBytes host command = Text.bytes
          ("250-Computing " ++ a.name ++ " digest\r\n250 " ++ found.hex ++ "\r\n")) ∨
        r.Refused host.storage s.ledger (s.answerTo host command).reply) ∧
    (∀ (r : Request) (l : Ledger σ) {size range f},
      ByteRange.ofTokens r.bounds size = .ok range →
        (Checksum.ofRange host.storage r.path r.algorithm range l).1 = .error f →
          host.storage.Refuses r.path range.start l.store f ∨
            (f.kind ≠ .invalidRange ∧ f.kind ≠ .unknownHashAlgorithm)) ∧
    (Text.upper command.verb = "HASH" → ' ' ∉ command.param.toList →
      ∀ (t : Session σ) (legacy : Command), t.ledger.store = s.ledger.store →
        legacy.param = command.param →
        HashAlgorithm.ofLegacyVerb? (Text.upper legacy.verb) = some s.profile.hash →
          (∃ found : Finding,
            (s.answerTo host command).reply = tellWhole s.profile.hash command.param found ∧
              (t.answerTo host legacy).reply = tellBounded s.profile.hash found) ∨
            ((s.answerTo host command).reply = (t.answerTo host legacy).reply ∧
              ((s.answerTo host command).reply.code = ReplyCode.notTaken ∨
                (s.answerTo host command).reply.code = ReplyCode.notAllowed))) := by
  refine ⟨dispatch_writes_front host command, s.hash_told_or_refused hoffers hparam, ?_, ?_, ?_⟩
  · intro a hverb
    exact s.legacy_told_or_refused hoffers hverb
  · intro r l size range f hbounds hdigest
    exact kind_of_unread hbounds hdigest
  · intro hverb hspace t legacy hstore hsame hlegacy
    exact hash_agrees_with_legacy hoffers hstore.symm hverb hlegacy hsame hspace

/-- A file that is read by twos, and one that is not there, under the selected algorithm and by a
legacy verb. -/
theorem digest_replies_true_in_memory :
    let hello : MemoryEntry :=
      { path := "a", info := { name := "a", kind := .file, size := 5 }
        data := [104, 101, 108, 108, 111], grain := some 2 }
    let host : Host MemoryStore MemoryHandle :=
      { settings := { enableHash := true }, storage := MemoryStore.complete false
        tls := .ok (), id := "1" }
    let s : Session MemoryStore :=
      { channel := {}, ledger := { store := [hello] }, profile := { hash := .crc32 } }
    s.replyBytes host ⟨"HASH", "a"⟩ =
        Text.bytes "213-Computing CRC32 digest\r\n213 CRC32 0-5 3610a686 a\r\n" ∧
      s.replyBytes host ⟨"XCRC", "a 1 4"⟩ =
        Text.bytes "250-Computing CRC32 digest\r\n250 3c11d901\r\n" ∧
      (s.answerTo host ⟨"HASH", "b"⟩).reply = (s.answerTo host ⟨"XCRC", "b"⟩).reply := by
  intro hello host s
  have hdescribed : (s.ledger.stat host.storage "a").1 = .ok hello.info := by
    simp [Ledger.stat, Ledger.ask, s, host, MemoryStore.complete, MemoryStore.minimal,
      MemoryStore.stat, MemoryStore.entry, MemoryStore.find?, hello, Except.map]
  have hholds : host.storage.Holds "a" hello.data [hello] :=
    MemoryStore.holds (by simp [MemoryStore.find?, hello]) rfl
  refine ⟨?_, ?_, ?_⟩
  · obtain ⟨-, hhash, -⟩ := digest_replies_true host rfl s ⟨"HASH", "a"⟩ (by decide)
    have hcode : (s.answerTo host ⟨"HASH", "a"⟩).reply.code = ReplyCode.fileStatus := by cbv
    rcases hhash (by decide) with ⟨size, hex, htrue, hbytes⟩ | hrefused
    · obtain ⟨info, hinfo, -, rfl⟩ := htrue.described
      obtain rfl := Except.ok.inj (hdescribed.symm.trans hinfo)
      have hex_eq : hex = HashAlgorithm.hashBytes .crc32 (hello.data.extract 0 5) :=
        (htrue.exact _ hholds).1
      rw [hbytes, hex_eq]
      cbv
    · exact absurd hcode hrefused.code_ne.1
  · obtain ⟨-, -, hlegacy, -⟩ := digest_replies_true host rfl s ⟨"XCRC", "a 1 4"⟩ (by decide)
    have hcode : (s.answerTo host ⟨"XCRC", "a 1 4"⟩).reply.code = ReplyCode.fileDone := by cbv
    rcases hlegacy .crc32 (by decide) with ⟨found, htrue, hbytes⟩ | hrefused
    · obtain ⟨info, hinfo, -, hsize⟩ := htrue.described
      obtain rfl := Except.ok.inj (hdescribed.symm.trans hinfo)
      have hrange : found.range = ⟨1, 4⟩ := by
        have hnamed := htrue.named
        rw [← hsize, show ByteRange.ofTokens _ _ = .ok ⟨1, 4⟩ by cbv] at hnamed
        exact (Except.ok.inj hnamed).symm
      have hex_eq : found.hex = HashAlgorithm.hashBytes .crc32 (hello.data.extract 1 4) := by
        have hexact := (htrue.exact _ hholds).1
        rwa [hrange] at hexact
      rw [hbytes, hex_eq]
      cbv
    · exact absurd hcode hrefused.code_ne.2
  · obtain ⟨-, -, -, -, hagree⟩ := digest_replies_true host rfl s ⟨"HASH", "b"⟩ (by decide)
    have hcode : (s.answerTo host ⟨"HASH", "b"⟩).reply.code = ReplyCode.notTaken := by cbv
    rcases hagree (by decide) (by decide) s ⟨"XCRC", "b"⟩ rfl rfl (by decide) with
      ⟨found, hfound, -⟩ | ⟨hsame, -⟩
    · rw [hfound] at hcode
      exact absurd hcode (show ReplyCode.fileStatus ≠ ReplyCode.notTaken by decide)
    · exact hsame

end Session

end FtpControl

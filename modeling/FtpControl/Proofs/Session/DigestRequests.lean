import FtpControl.Proofs.Reply.DigestLines
import FtpControl.Proofs.Storage.Journaling
import FtpControl.Proofs.Storage.RangeCauses
import FtpControl.Proofs.Text.Decoding

/-!
# Requests for digests

Both kinds of digest verb make one kind of request: a file is described, a range of it is fixed, and
the bytes there are read. What is found is true, and every refusal has its stage.
-/

namespace FtpControl

variable {σ κ : Type}

/-! ## Ranges within a size -/

namespace ByteRange

theorem ofTokens_nil (size : Nat) : ofTokens [] size = .ok ⟨0, size⟩ := by
  simp [ofTokens, readBound, bind, Except.bind]

/-- The range that tokens name is in order, and within the size. -/
theorem ofTokens_spec {tokens : List String} {size : Nat} {range : ByteRange}
    (h : ofTokens tokens size = .ok range) : range.start ≤ range.stop ∧ range.stop ≤ size := by
  simp only [ofTokens, bind, Except.bind] at h
  cases hstart : readBound .start tokens[0]? 0 with
  | error refusal => simp [hstart] at h
  | ok start =>
      cases hstop : readBound .stop tokens[1]? size with
      | error refusal => simp [hstart, hstop] at h
      | ok stop =>
          by_cases hout : stop < start ∨ size < stop
          · simp [hstart, hstop, hout] at h
          · simp only [hstart, hstop, hout, if_false, Except.ok.injEq] at h
            subst h
            rw [not_or, Nat.not_lt, Nat.not_lt] at hout
            exact hout

end ByteRange

/-- A digest that was had is what some digest half computed comes to. -/
theorem Checksum.hex_of_ofRange {st : Storage σ κ} {path : String} {a : HashAlgorithm}
    {range : ByteRange} {l : Ledger σ} {hex : String}
    (h : (ofRange st path a range l).1 = .ok hex) : ∃ engine : DigestEngine, hex = engine.hex := by
  unfold ofRange at h
  split at h
  · simp at h
  · split at h
    · simp at h
    · next handle l₁ hopen =>
        rcases hstream : stream st (range.stop - range.start) (range.stop - range.start) handle
          (.start a) l₁ with ⟨_ | final, h₂, l₂⟩
        · simp [hstream, Except.map] at h
        · simp only [hstream, Except.map, Except.ok.injEq] at h
          exact ⟨final, h.symm⟩

/-! ## Requests for digests -/

namespace Digests

theorem digest_fst (host : Host σ κ) (path : String) (a : HashAlgorithm) (range : ByteRange)
    (l : Ledger σ) :
    (digest host path a range l).1 =
      (Checksum.ofRange host.storage path a range l).1.mapError fun f =>
        .message ReplyCode.notTaken (path ++ ": " ++ f.message) := by
  unfold digest
  rcases Checksum.ofRange host.storage path a range l with ⟨f | hex, m⟩ <;> rfl

theorem regular_behind (before : Array Event) (st : Storage σ κ) (path shown : String)
    (l : Ledger σ) :
    regular st path shown (l.behind before) =
      ((regular st path shown l).1, (regular st path shown l).2.behind before) := by
  simp only [regular, Ledger.stat_behind]
  rcases l.stat st path with ⟨f | info, m⟩
  · rfl
  · simp only
    split <;> rfl

theorem digest_behind (before : Array Event) (host : Host σ κ) (path : String)
    (a : HashAlgorithm) (range : ByteRange) (l : Ledger σ) :
    digest host path a range (l.behind before) =
      ((digest host path a range l).1, (digest host path a range l).2.behind before) := by
  simp only [digest, Checksum.ofRange_behind]
  rcases Checksum.ofRange host.storage path a range l with ⟨f | hex, m⟩
  · simp only [Ledger.log_behind]
  · rfl

/-- A request for a digest: under an algorithm, of what a path names, within bounds. A reply on what
the path names shows it as `shown`. -/
structure Request where
  algorithm : HashAlgorithm
  path : String
  shown : String
  bounds : List String

/-- What a request finds: the size that was reported, the range of it, and the digest. -/
structure Finding where
  size : Nat
  range : ByteRange
  hex : String

namespace Request

def find (host : Host σ κ) (r : Request) (l : Ledger σ) : Except Reply Finding × Ledger σ :=
  match regular host.storage r.path r.shown l with
  | (.error reply, l) => (.error reply, l)
  | (.ok info, l) =>
      match ByteRange.ofTokens r.bounds info.size with
      | .error refusal => (.error (.message ReplyCode.badArguments refusal.message), l)
      | .ok range =>
          let (answer, l) := digest host r.path r.algorithm range l
          (answer.map fun hex => ⟨info.size, range, hex⟩, l)

/-- The request for the digest of a whole file. -/
def whole (a : HashAlgorithm) (path : String) : Request := ⟨a, path, path, []⟩

/-- The request that a parameter with bounds makes. -/
def bounded (a : HashAlgorithm) (param : String) : Request :=
  ⟨a, (pathAndBounds param).1, param, (pathAndBounds param).2⟩

theorem pathAndBounds_of_notMem {param : String} (h : ' ' ∉ param.toList) :
    pathAndBounds param = (param, []) := by
  simp [pathAndBounds, Text.cutUpTo, Text.cut?_of_notMem h]

theorem bounded_of_notMem (a : HashAlgorithm) {param : String} (h : ' ' ∉ param.toList) :
    bounded a param = whole a param := by
  rw [bounded, whole, pathAndBounds_of_notMem h]

/-- The reply that tells what was found, or why nothing was. -/
def toReply (tell : Finding → Reply) : Except Reply Finding → Reply
  | .ok found => tell found
  | .error refusal => refusal

def tellWhole (a : HashAlgorithm) (path : String) (found : Finding) : Reply :=
  .message ReplyCode.fileStatus (heading a ++ wholeLine a found.size found.hex path)

def tellBounded (a : HashAlgorithm) (found : Finding) : Reply :=
  .message ReplyCode.fileDone (heading a ++ found.hex)

theorem ofWhole_eq (host : Host σ κ) (a : HashAlgorithm) (path : String) (l : Ledger σ) :
    ofWhole host a path l =
      (toReply (tellWhole a path) ((whole a path).find host l).1,
        ((whole a path).find host l).2) := by
  simp only [ofWhole, find, whole]
  rcases regular host.storage path path l with ⟨refusal | info, m⟩
  · rfl
  · simp only [ByteRange.ofTokens_nil]
    rcases digest host path a ⟨0, info.size⟩ m with ⟨refusal | hex, n⟩ <;> rfl

theorem ofBounds_eq (host : Host σ κ) (a : HashAlgorithm) (param : String) (l : Ledger σ) :
    ofBounds host a param l =
      (toReply (tellBounded a) ((bounded a param).find host l).1,
        ((bounded a param).find host l).2) := by
  simp only [ofBounds, find, bounded]
  rcases regular host.storage (pathAndBounds param).1 param l with ⟨refusal | info, m⟩
  · rfl
  · simp only
    cases ByteRange.ofTokens (pathAndBounds param).2 info.size with
    | error refusal => rfl
    | ok range =>
        simp only
        rcases digest host (pathAndBounds param).1 a range m with ⟨refusal | hex, n⟩ <;> rfl

theorem find_behind (before : Array Event) (host : Host σ κ) (r : Request) (l : Ledger σ) :
    r.find host (l.behind before) = ((r.find host l).1, (r.find host l).2.behind before) := by
  simp only [find, regular_behind]
  rcases regular host.storage r.path r.shown l with ⟨refusal | info, m⟩
  · rfl
  · simp only
    cases ByteRange.ofTokens r.bounds info.size with
    | error refusal => rfl
    | ok range => simp only [digest_behind]

/-- What is found is fixed by the state of the storage. -/
theorem find_congr (host : Host σ κ) (r : Request) {l m : Ledger σ} (h : l.store = m.store) :
    (r.find host l).1 = (r.find host m).1 :=
  Ledger.fst_congr (fun before l => find_behind before host r l) h

/-- Whether what was found is true: the file was described as a regular one of that size, the range
is what the bounds name within it, and the digest is that of the bytes there, all of which the
content has. -/
structure Attests (st : Storage σ κ) (r : Request) (found : Finding) (l : Ledger σ) : Prop where
  described : ∃ info, (l.stat st r.path).1 = .ok info ∧ info.isRegular = true ∧
    info.size = found.size
  named : ByteRange.ofTokens r.bounds found.size = .ok found.range
  inOrder : found.range.start ≤ found.range.stop
  within : found.range.stop ≤ found.size
  lowercase : found.hex ≠ "" ∧ found.hex.toList.all Numeral.isHexDigit = true
  exact : ∀ content, st.Holds r.path content (l.stat st r.path).2.store →
    found.hex = r.algorithm.hashBytes (content.extract found.range.start found.range.stop) ∧
      (found.range.start < found.range.stop → found.range.stop ≤ content.length)

/-- The refusals of a request, by the stage that fails. -/
inductive Refused (st : Storage σ κ) (r : Request) (l : Ledger σ) : Reply → Prop where
  | missing {f} (hstat : (l.stat st r.path).1 = .error f) :
      Refused st r l (.message ReplyCode.notTaken (r.shown ++ ": " ++ f.message))
  | irregular {info} (hstat : (l.stat st r.path).1 = .ok info) (hkind : info.isRegular = false) :
      Refused st r l (.message ReplyCode.notAllowed (Failure.notRegularFile r.shown).message)
  | unbounded {info refusal} (hstat : (l.stat st r.path).1 = .ok info)
      (hkind : info.isRegular = true)
      (hbounds : ByteRange.ofTokens r.bounds info.size = .error refusal) :
      Refused st r l (.message ReplyCode.badArguments refusal.message)
  | unread {info range f} (hstat : (l.stat st r.path).1 = .ok info)
      (hkind : info.isRegular = true)
      (hbounds : ByteRange.ofTokens r.bounds info.size = .ok range)
      (hdigest : (Checksum.ofRange st r.path r.algorithm range (l.stat st r.path).2).1 =
        .error f) :
      Refused st r l (.message ReplyCode.notTaken (r.path ++ ": " ++ f.message))

/-- What a request comes to. -/
inductive Course (st : Storage σ κ) (r : Request) (l : Ledger σ) : Except Reply Finding → Prop where
  | told {found} (h : r.Attests st found l) : Course st r l (.ok found)
  | refused {refusal} (h : r.Refused st l refusal) : Course st r l (.error refusal)

theorem course_find (host : Host σ κ) (r : Request) (l : Ledger σ) :
    r.Course host.storage l (r.find host l).1 := by
  unfold find regular
  rcases hstat : l.stat host.storage r.path with ⟨f | info, m⟩
  · exact .refused (.missing (by rw [hstat]))
  · have hdescribed : (l.stat host.storage r.path).1 = .ok info := by rw [hstat]
    have hafter : (l.stat host.storage r.path).2 = m := by rw [hstat]
    by_cases hkind : info.isRegular = true
    · cases hbounds : ByteRange.ofTokens r.bounds info.size with
      | error refusal =>
          simp only [hkind, if_true, hbounds]
          exact .refused (.unbounded hdescribed hkind hbounds)
      | ok range =>
          obtain ⟨horder, hwithin⟩ := ByteRange.ofTokens_spec hbounds
          simp only [hkind, if_true, hbounds, digest_fst]
          cases hdigest : (Checksum.ofRange host.storage r.path r.algorithm range m).1 with
          | error f =>
              rw [← hafter] at hdigest
              exact .refused (.unread hdescribed hkind hbounds hdigest)
          | ok hex =>
              obtain ⟨engine, hhex⟩ := Checksum.hex_of_ofRange hdigest
              refine .told ⟨⟨info, hdescribed, hkind, rfl⟩, hbounds, horder, hwithin, ?_, ?_⟩
              · rw [hhex]
                exact ⟨engine.hex_ne_empty, engine.all_isHexDigit_hex⟩
              · intro content hholds
                rw [hafter] at hholds
                exact Checksum.digest_of_ofRange hholds horder (Prod.ext hdigest rfl)
    · simp only [hkind]
      exact .refused (.irregular hdescribed (by simpa using hkind))

/-- A digest that was asked for is not blamed on the range or the algorithm, unless by the storage
itself. -/
theorem kind_of_unread {st : Storage σ κ} {r : Request} {l : Ledger σ} {size : Nat}
    {range : ByteRange} {f : Failure} (hbounds : ByteRange.ofTokens r.bounds size = .ok range)
    (hdigest : (Checksum.ofRange st r.path r.algorithm range l).1 = .error f) :
    st.Refuses r.path range.start l.store f ∨
      (f.kind ≠ .invalidRange ∧ f.kind ≠ .unknownHashAlgorithm) := by
  obtain ⟨horder, -⟩ := ByteRange.ofTokens_spec hbounds
  exact (Checksum.cause_of_ofRange horder hdigest).kind

theorem Refused.code_ne {st : Storage σ κ} {r : Request} {l : Ledger σ} {refusal : Reply}
    (h : r.Refused st l refusal) :
    refusal.code ≠ ReplyCode.fileStatus ∧ refusal.code ≠ ReplyCode.fileDone := by
  cases h <;> simp only [Reply.code] <;> decide

/-- Without bounds, a request is refused with one of two codes. -/
theorem Refused.code_of_nil {st : Storage σ κ} {r : Request} {l : Ledger σ} {refusal : Reply}
    (h : r.Refused st l refusal) (hbounds : r.bounds = []) :
    refusal.code = ReplyCode.notTaken ∨ refusal.code = ReplyCode.notAllowed := by
  cases h with
  | missing => exact .inl rfl
  | irregular => exact .inr rfl
  | unbounded _ _ hnone => simp [hbounds, ByteRange.ofTokens_nil] at hnone
  | unread => exact .inl rfl

end Request

end Digests

end FtpControl

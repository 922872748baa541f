import FtpControl.Proofs.Session.DigestReplies
import FtpControl.Proofs.Session.LifeCycle
import FtpControl.Proofs.Text.Decoding

/-!
# What a client has chosen

What a session knows of its client was told by the last command on the matter, whatever else was
asked before and after, and whatever became of the replies. The digest algorithm that was selected
last is the one that replies name, advertise and compute.
-/

namespace FtpControl

variable {σ κ : Type}

/-! ## The last choice -/

section

variable {α β : Type}

/-- The choice that stands after some actions: the last one made, or the preset if none was. -/
inductive IsLast (chooses : α → β → Prop) (preset : β) : List α → β → Prop where
  | chosen {front act back b} (hb : chooses act b)
      (hnone : ∀ later ∈ back, ∀ c, ¬ chooses later c) :
      IsLast chooses preset (front ++ act :: back) b
  | preset {actions} (hnone : ∀ act ∈ actions, ∀ c, ¬ chooses act c) :
      IsLast chooses preset actions preset

theorem IsLast.cons_of_choice {chooses : α → β → Prop} {act : α} {actions : List α} {a b c : β}
    (hact : chooses act b) (h : IsLast chooses b actions c) :
    IsLast chooses a (act :: actions) c := by
  cases h with
  | chosen hb hnone =>
      rw [← List.cons_append]
      exact .chosen hb hnone
  | preset hnone =>
      rw [← List.nil_append (act :: actions)]
      exact .chosen hact hnone

theorem IsLast.cons_of_none {chooses : α → β → Prop} {act : α} {actions : List α} {a c : β}
    (hact : ∀ b, ¬ chooses act b) (h : IsLast chooses a actions c) :
    IsLast chooses a (act :: actions) c := by
  cases h with
  | chosen hb hnone =>
      rw [← List.cons_append]
      exact .chosen hb hnone
  | preset hnone => exact .preset (List.forall_mem_cons.mpr ⟨hact, hnone⟩)

/-- What an action makes of a value: what it chooses, or the same if it chooses nothing. -/
inductive Follows (chooses : α → β → Prop) (act : α) (before : β) : β → Prop where
  | chosen {after} (h : chooses act after) : Follows chooses act before after
  | kept (hnone : ∀ b, ¬ chooses act b) : Follows chooses act before before

/-- An action that chooses only on a condition, and then changes a value as it chooses. -/
theorem Follows.ite {chooses : α → β → Prop} {act : α} {before after : β} {p : Prop} [Decidable p]
    (hmeant : p → Follows chooses act before after) (hother : ¬ p → ∀ b, ¬ chooses act b) :
    Follows chooses act before (if p then after else before) := by
  split
  · next h => exact hmeant h
  · next h => exact .kept (hother h)

/-- A value that every action makes what it chooses is the last choice. -/
theorem isLast_foldl {γ : Type} {chooses : α → β → Prop} {apply : γ → α → γ} {get : γ → β}
    (hfollows : ∀ s act, Follows chooses act (get s) (get (apply s act))) (actions : List α)
    (s : γ) : IsLast chooses (get s) actions (get (actions.foldl apply s)) := by
  induction actions generalizing s with
  | nil => exact .preset (by simp)
  | cons act actions ih =>
      have hact := hfollows s act
      have hrest := ih (apply s act)
      rw [List.foldl_cons]
      generalize get (apply s act) = after at hact hrest
      cases hact with
      | chosen h => exact hrest.cons_of_choice h
      | kept hnone => exact hrest.cons_of_none hnone

end

/-! ## What a command chooses -/

namespace Choices

/-- What is known of a client after a command. -/
def choose (hashing : Bool) (command : Command) (profile : Profile) : Profile :=
  match Verb.ofText hashing command.verb with
  | .prot => (protect command.param profile).2
  | .clnt => (nameClient command.param profile).2
  | .type => (chooseType command.param profile).2
  | .opts => selectHash hashing command.param profile
  | _ => profile

theorem ofName?_eq_some_iff {s : String} {a : HashAlgorithm} :
    HashAlgorithm.ofName? s = some a ↔ s = a.name := by
  constructor
  · intro h
    have hname := List.find?_some h
    exact (beq_iff_eq.mp hname).symm
  · rintro rfl
    cases a <;> rfl

/-- An algorithm is selected by the option for digests in any case, a space, and its exact name. -/
theorem selection?_eq_some_iff {hashing : Bool} {param : String} {a : HashAlgorithm} :
    selection? hashing param = some a ↔
      hashing = true ∧ ∃ word, Text.upper word = "HASH" ∧ param = word ++ " " ++ a.name := by
  have hcut : ∀ word value, param = word ++ " " ++ value ↔
      param.toList = word.toList ++ ' ' :: value.toList := by
    intro word value
    rw [← String.toList_inj]
    simp
  rw [selection?, optionParts]
  constructor
  · intro h
    rcases hparts : Text.cut? ' ' param with _ | ⟨word, value⟩
    · simp [hparts] at h
    · obtain ⟨-, htext⟩ := Text.cut?_eq_some_iff.mp hparts
      simp only [hparts, Text.sameKeyword, Option.ite_none_right_eq_some, Bool.and_eq_true,
        beq_iff_eq, ofName?_eq_some_iff] at h
      obtain ⟨⟨hword, hon⟩, rfl⟩ := h
      exact ⟨hon, word, hword, (hcut _ _).mpr htext⟩
  · rintro ⟨rfl, word, hword, hparam⟩
    have hspace : ' ' ∉ word.toList := Text.notMem_of_upper rfl hword (by decide)
    have hparts : Text.cut? ' ' param = some (word, a.name) :=
      Text.cut?_eq_some_iff.mpr ⟨hspace, (hcut _ _).mp hparam⟩
    have hname : HashAlgorithm.ofName? a.name = some a := ofName?_eq_some_iff.mpr rfl
    have hkeyword : Text.sameKeyword word "HASH" = true := by
      rw [Text.sameKeyword, hword]
      rfl
    simp [hparts, hkeyword, hname]

/-- The transfer type that a parameter chooses. -/
def type? (param : String) : Option TransferType :=
  if param = "I" then some .binary else if param = "A" then some .ascii else none

theorem chooseType_snd (param : String) (profile : Profile) :
    (chooseType param profile).2 =
      { profile with transferType := (type? param).getD profile.transferType } := by
  unfold chooseType type?
  split
  · rfl
  · split <;> rfl

theorem selectHash_eq (hashing : Bool) (param : String) (profile : Profile) :
    selectHash hashing param profile =
      { profile with hash := (selection? hashing param).getD profile.hash } := by
  unfold selectHash
  split
  · next h => rw [h]; rfl
  · next h => rw [h]; rfl

/-- Every verb that chooses something chooses one thing, and no other verb chooses any. -/
theorem choose_eq (hashing : Bool) (command : Command) (profile : Profile) :
    choose hashing command profile =
      { profile with
        privateTransfers :=
          if Text.upper command.verb = "PROT" then decide (command.param = "P")
          else profile.privateTransfers
        clientName :=
          if Text.upper command.verb = "CLNT" then command.param else profile.clientName
        transferType :=
          if Text.upper command.verb = "TYPE" then (type? command.param).getD profile.transferType
          else profile.transferType
        hash :=
          if Text.upper command.verb = "OPTS" then
            (selection? hashing command.param).getD profile.hash
          else profile.hash } := by
  have hprot := Verb.ofText_eq_basic_iff (show ("PROT", .prot) ∈ Verb.basic by decide) hashing
  have hclnt := Verb.ofText_eq_basic_iff (show ("CLNT", .clnt) ∈ Verb.basic by decide) hashing
  have htype := Verb.ofText_eq_basic_iff (show ("TYPE", .type) ∈ Verb.basic by decide) hashing
  have hopts := Verb.ofText_eq_basic_iff (show ("OPTS", .opts) ∈ Verb.basic by decide) hashing
  simp only [← hprot, ← hclnt, ← htype, ← hopts, choose]
  cases Verb.ofText hashing command.verb with
  | prot => rfl
  | clnt => rfl
  | type => simp only [chooseType_snd, reduceCtorEq, if_true, if_false]
  | opts => simp only [selectHash_eq, reduceCtorEq, if_true, if_false]
  | _ => simp only [reduceCtorEq, if_false]

end Choices

/-! ## What a dispatch chooses -/

theorem Answer.profile_toCommand (host : Host σ κ) (command : Command) (secured : Bool)
    (profile : Profile) (l : Ledger σ) :
    (toCommand host command secured profile l).profile =
      Choices.choose host.settings.enableHash command profile := by
  unfold toCommand Choices.choose
  cases Verb.ofText host.settings.enableHash command.verb with
  | auth =>
      cases secured with
      | true => rfl
      | false => cases htls : host.tls <;> simp [toAuth, htls]
  | stat =>
      simp only [toStat]
      split <;> rfl
  | _ => rfl

namespace Session

theorem profile_hangUp (host : Host σ κ) (s : Session σ) : (s.hangUp host).profile = s.profile := by
  simp only [hangUp]
  split <;> rfl

theorem profile_perform (host : Host σ κ) (command : Command) (s : Session σ) :
    (s.perform host command).2.profile =
      Choices.choose host.settings.enableHash command s.profile := by
  have hanswer : (s.answerTo host command).profile =
      Choices.choose host.settings.enableHash command s.profile := Answer.profile_toCommand ..
  rw [← hanswer]
  rcases hperform : s.perform host command with ⟨outcome, t⟩
  cases course_of_perform hperform with
  | closed _ ht => rw [ht]; rfl
  | cut _ _ _ ht => rw [ht]; rfl
  | stay _ _ _ ht => rw [ht]; rfl
  | hangUp _ _ _ ht => rw [ht, profile_hangUp]; rfl
  | secure _ _ _ ht => rw [ht]; rfl

theorem profile_secure (host : Host σ κ) (s : Session σ) :
    (s.secure host).2.profile = s.profile := by
  rcases hsecure : s.secure host with ⟨outcome, t⟩
  cases upgrade_of_secure hsecure with
  | waiting _ ht => rw [ht]
  | failed _ ht => rw [ht]
  | done _ _ ht => rw [ht]; rfl

/-- Neither replies nor handshakes have a say in what is known of a client. -/
theorem profile_dispatch (host : Host σ κ) (command : Command) (s : Session σ) :
    (s.dispatch host command).2.profile =
      Choices.choose host.settings.enableHash command s.profile := by
  rw [← profile_perform, dispatch]
  rcases s.perform host command with ⟨_ | _ | _, t⟩
  · rfl
  · exact profile_secure host t
  · rfl

end Session

/-! ## Histories of commands and users -/

/-- What is done to a session: a dispatch, or telling it who its client is. -/
inductive Action (σ κ : Type) where
  | dispatch (turn : Turn σ κ)
  | authenticate (user : String)

namespace Action

def apply (s : Session σ) : Action σ κ → Session σ
  | dispatch turn => (turn.make s).after
  | authenticate user => s.setUser user

/-! ### What actions choose -/

/-- Transfers are protected after `PROT` with the parameter `P`, and not after any other. -/
inductive Protects : Action σ κ → Bool → Prop where
  | prot {turn} (hverb : Text.upper turn.command.verb = "PROT") :
      Protects (dispatch turn) (decide (turn.command.param = "P"))

inductive Names : Action σ κ → String → Prop where
  | clnt {turn} (hverb : Text.upper turn.command.verb = "CLNT") :
      Names (dispatch turn) turn.command.param

inductive Types : Action σ κ → TransferType → Prop where
  | binary {turn} (hverb : Text.upper turn.command.verb = "TYPE")
      (hparam : turn.command.param = "I") : Types (dispatch turn) .binary
  | ascii {turn} (hverb : Text.upper turn.command.verb = "TYPE")
      (hparam : turn.command.param = "A") : Types (dispatch turn) .ascii

inductive Authenticates : Action σ κ → String → Prop where
  | user (user : String) : Authenticates (authenticate user) user

/-- A digest algorithm is selected, while digests are offered, by the option for digests in any
case, a space, and its exact name. -/
inductive Selects : Action σ κ → HashAlgorithm → Prop where
  | opts {turn word a} (hverb : Text.upper turn.command.verb = "OPTS")
      (hoffers : turn.host.settings.enableHash = true) (hword : Text.upper word = "HASH")
      (hparam : turn.command.param = word ++ " " ++ a.name) : Selects (dispatch turn) a

theorem profile_apply_dispatch (turn : Turn σ κ) (s : Session σ) :
    ((dispatch turn).apply s).profile =
      Choices.choose turn.host.settings.enableHash turn.command s.profile :=
  Session.profile_dispatch ..

/-! ### What becomes of the choices -/

variable (s : Session σ) (act : Action σ κ)

theorem follows_transfers :
    Follows Protects act s.profile.privateTransfers (act.apply s).profile.privateTransfers := by
  cases act with
  | authenticate user => exact .kept nofun
  | dispatch turn =>
      rw [profile_apply_dispatch, Choices.choose_eq]
      apply Follows.ite
      · intro hverb
        exact .chosen (.prot hverb)
      · rintro hverb _ ⟨hprot⟩
        exact hverb hprot

theorem follows_client :
    Follows Names act s.profile.clientName (act.apply s).profile.clientName := by
  cases act with
  | authenticate user => exact .kept nofun
  | dispatch turn =>
      rw [profile_apply_dispatch, Choices.choose_eq]
      apply Follows.ite
      · intro hverb
        exact .chosen (.clnt hverb)
      · rintro hverb _ ⟨hclnt⟩
        exact hverb hclnt

theorem follows_type :
    Follows Types act s.profile.transferType (act.apply s).profile.transferType := by
  cases act with
  | authenticate user => exact .kept nofun
  | dispatch turn =>
      rw [profile_apply_dispatch, Choices.choose_eq]
      apply Follows.ite
      · intro hverb
        simp only [Choices.type?]
        by_cases hbinary : turn.command.param = "I"
        · simp only [hbinary, if_true]
          exact .chosen (.binary hverb hbinary)
        · by_cases hascii : turn.command.param = "A"
          · simp only [hascii, if_true]
            exact .chosen (.ascii hverb hascii)
          · simp only [hbinary, hascii, if_false]
            apply Follows.kept
            rintro _ (⟨-, hparam⟩ | ⟨-, hparam⟩)
            · exact hbinary hparam
            · exact hascii hparam
      · rintro hverb _ (⟨htype, -⟩ | ⟨htype, -⟩)
        · exact hverb htype
        · exact hverb htype

theorem follows_user : Follows Authenticates act s.profile.user (act.apply s).profile.user := by
  cases act with
  | authenticate user => exact .chosen (.user user)
  | dispatch turn =>
      rw [profile_apply_dispatch, Choices.choose_eq]
      exact .kept nofun

theorem follows_hash : Follows Selects act s.profile.hash (act.apply s).profile.hash := by
  cases act with
  | authenticate user => exact .kept nofun
  | dispatch turn =>
      rw [profile_apply_dispatch, Choices.choose_eq]
      apply Follows.ite
      · intro hverb
        cases hselection : Choices.selection? turn.host.settings.enableHash turn.command.param with
        | some a =>
            obtain ⟨hoffers, word, hword, hparam⟩ := Choices.selection?_eq_some_iff.mp hselection
            exact .chosen (.opts hverb hoffers hword hparam)
        | none =>
            apply Follows.kept
            rintro a ⟨-, hoffers, hword, hparam⟩
            have hsome := Choices.selection?_eq_some_iff.mpr ⟨hoffers, _, hword, hparam⟩
            rw [hselection] at hsome
            cases hsome
      · rintro hverb _ ⟨hopts, -⟩
        exact hverb hopts

end Action

/-- What a session does, action by action. -/
def Session.undergo (actions : List (Action σ κ)) (s : Session σ) : Session σ :=
  actions.foldl Action.apply s

/-- Whether a profile holds what was chosen last on every matter. -/
structure Profile.Negotiated (actions : List (Action σ κ)) (profile : Profile) : Prop where
  transfers : IsLast Action.Protects false actions profile.privateTransfers
  client : IsLast Action.Names "" actions profile.clientName
  type : IsLast Action.Types .binary actions profile.transferType
  user : IsLast Action.Authenticates "" actions profile.user
  hash : IsLast Action.Selects .sha256 actions profile.hash

theorem Session.negotiated_undergo (channel : Channel) (ledger : Ledger σ)
    (actions : List (Action σ κ)) :
    (undergo actions { channel, ledger }).profile.Negotiated actions := by
  let fresh : Session σ := { channel, ledger }
  exact {
    transfers := isLast_foldl Action.follows_transfers actions fresh
    client := isLast_foldl Action.follows_client actions fresh
    type := isLast_foldl Action.follows_type actions fresh
    user := isLast_foldl Action.follows_user actions fresh
    hash := isLast_foldl Action.follows_hash actions fresh }

/-! ## What replies tell of the selection -/

namespace Features

/-- The entries that a star marks as selected. -/
def starred (features : List String) : List String :=
  features.flatMap fun feature =>
    (Text.split ';' feature).filter fun entry => entry.toList.getLast? = some '*'

theorem starred_append (front back : List String) :
    starred (front ++ back) = starred front ++ starred back :=
  List.flatMap_append ..

theorem starred_offered (feature : String) (h : starred [feature] = []) (present : Bool) :
    starred (offered present feature) = [] := by
  cases present with
  | true => exact h
  | false => rfl

/-- Among all features, only the selected digest algorithm is starred. -/
theorem starred_list {host : Host σ κ} (hoffers : host.settings.enableHash = true)
    (selected : HashAlgorithm) : starred (list host selected) = [selected.name ++ "*"] := by
  have hdigests : ∀ a, starred (digests true a) = [a.name ++ "*"] := by
    intro a
    cases a <;> decide
  have halways : starred always = [] := by decide
  rw [list, hoffers]
  simp only [starred_append, halways, hdigests,
    starred_offered "MLSD" (by decide), starred_offered "MLST" (by decide),
    starred_offered "MFMT" (by decide), starred_offered "AUTH TLS" (by decide), List.nil_append]

end Features

namespace Session

variable {host : Host σ κ} {command : Command}

theorem reply_options (s : Session σ) (hverb : Text.upper command.verb = "OPTS") :
    (s.answerTo host command).reply =
      Choices.optionReply host.settings.enableHash s.profile.hash command.param := by
  have hopts := (Verb.ofText_eq_basic_iff (show ("OPTS", .opts) ∈ Verb.basic by decide)
    host.settings.enableHash command.verb).mpr hverb
  simp only [answerTo, Answer.toCommand, hopts]
  rfl

theorem reply_features (s : Session σ) (hverb : Text.upper command.verb = "FEAT") :
    (s.answerTo host command).reply = Features.reply host s.profile.hash := by
  have hfeat := (Verb.ofText_eq_basic_iff (show ("FEAT", .feat) ∈ Verb.basic by decide)
    host.settings.enableHash command.verb).mpr hverb
  simp only [answerTo, Answer.toCommand, hfeat]
  rfl

end Session

namespace Choices

theorem sameKeyword_utf8 {option : String} (h : Text.upper option = "HASH") :
    Text.sameKeyword option "UTF8" = false := by
  rw [Text.sameKeyword, h]
  decide

theorem sameKeyword_hash {option : String} (h : Text.upper option = "HASH") :
    Text.sameKeyword option "HASH" = true := by
  rw [Text.sameKeyword, h]
  decide

/-- Without a value, the option for digests names what is selected. -/
theorem optionReply_query {param : String} (h : Text.upper param = "HASH")
    (current : HashAlgorithm) :
    optionReply true current param = .message ReplyCode.done current.name := by
  have hspace : ' ' ∉ param.toList := Text.notMem_of_upper rfl h (by decide)
  have hparts : optionParts param = (param, none) := by
    rw [optionParts, Text.cut?_of_notMem hspace]
  simp [optionReply, hparts, sameKeyword_utf8 h, sameKeyword_hash h]

/-- With the name of an algorithm, it names that. -/
theorem optionReply_selecting {param : String} {a : HashAlgorithm}
    (h : selection? true param = some a) (current : HashAlgorithm) :
    optionReply true current param = .message ReplyCode.done a.name := by
  rcases hparts : optionParts param with ⟨option, _ | name⟩
  · simp [selection?, hparts] at h
  · simp only [selection?, hparts, Bool.and_true, Option.ite_none_right_eq_some] at h
    obtain ⟨hkeyword, hname⟩ := h
    have hword : Text.upper option = Text.upper "HASH" := beq_iff_eq.mp hkeyword
    simp [optionReply, hparts, sameKeyword_utf8 (hword.trans (by decide)), hkeyword, hname]

end Choices

namespace Dispatched

def reply (d : Dispatched σ κ) : Reply := (d.before.answerTo d.turn.host d.turn.command).reply

/-- Whether a reply that names, advertises or computes by a digest algorithm does so by the one
that is selected. -/
structure Discloses (d : Dispatched σ κ) (selected : HashAlgorithm) : Prop where
  query : d.Asks "OPTS" → Text.upper d.turn.command.param = "HASH" →
    d.reply = .message ReplyCode.done selected.name
  /-- The option for digests names what is selected from then on. -/
  selecting : ∀ a, Action.Selects (.dispatch d.turn) a →
    d.reply = .message ReplyCode.done a.name ∧ d.after.profile.hash = a
  feature : d.Asks "FEAT" → ∃ features,
    d.reply = .block ReplyCode.systemStatus "Features:" features "End" ∧
      Features.starred features = [selected.name ++ "*"]
  digest : d.Asks "HASH" → d.reply.code = ReplyCode.fileStatus → ∃ found,
    (Digests.Request.whole selected d.turn.command.param).Attests d.turn.host.storage found
        d.before.ledger ∧
      d.reply = Digests.Request.tellWhole selected d.turn.command.param found

theorem discloses (d : Dispatched σ κ) (h : d.turn.host.settings.enableHash = true)
    (hafter : d.after = (d.before.dispatch d.turn.host d.turn.command).2) :
    d.Discloses d.before.profile.hash where
  query hverb hparam := by
    rw [reply, Session.reply_options _ hverb, h]
    exact Choices.optionReply_query hparam _
  selecting a ha := by
    cases ha with
    | opts hverb _ hword hparam =>
        have hselection : Choices.selection? true d.turn.command.param = some a :=
          Choices.selection?_eq_some_iff.mpr ⟨rfl, _, hword, hparam⟩
        constructor
        · rw [reply, Session.reply_options _ hverb, h]
          exact Choices.optionReply_selecting hselection _
        · rw [hafter, Session.profile_dispatch, Choices.choose_eq, h, hselection]
          simp [hverb]
  feature hverb := by
    rw [reply, Session.reply_features _ hverb]
    exact ⟨_, rfl, Features.starred_list h _⟩
  digest hverb hcode := by
    have hcourse := Digests.Request.course_find d.turn.host
      (.whole d.before.profile.hash d.turn.command.param) d.before.ledger
    have hreply : d.reply = _ := Session.reply_hash h d.before hverb
    cases hfound : ((Digests.Request.whole d.before.profile.hash d.turn.command.param).find
        d.turn.host d.before.ledger).1 with
    | error refusal =>
        rw [hfound] at hcourse hreply
        cases hcourse with
        | refused hrefused =>
            rw [hreply] at hcode
            exact absurd hcode hrefused.code_ne.1
    | ok found =>
        rw [hfound] at hcourse hreply
        cases hcourse with
        | told htrue => exact ⟨found, htrue, hreply⟩

end Dispatched

/-- A host without files that offers digests all the same. -/
def Host.offering : Host MemoryStore MemoryHandle :=
  { Host.bare (.ok ()) with settings := { enableHash := true } }

namespace Session

/-- What a session knows of its client is what was told last, and the digest algorithm that was
selected last is the one that replies name, advertise and compute by: after any dispatches and
users, whatever was replied, however the storage failed, and whatever became of the connection. -/
theorem last_choice_stands (channel : Channel) (ledger : Ledger σ)
    (actions : List (Action σ κ)) :
    let s := undergo actions { channel, ledger }
    s.profile.Negotiated actions ∧
      ∀ (turn : Turn σ κ) (via : Protection), turn.host.settings.enableHash = true →
        s.channel.state = .live via →
          (turn.make s).Discloses s.profile.hash ∧
            ∃ delivered, (turn.make s).writes = [(via, delivered)] ∧
              delivered <+: Text.bytes (turn.make s).reply.render := by
  intro s
  refine ⟨negotiated_undergo channel ledger actions, fun turn via hoffers hlive => ⟨?_, ?_⟩⟩
  · exact (turn.make s).discloses hoffers rfl
  · obtain ⟨delivered, hwritten, hfront⟩ :=
      dispatch_writes_front turn.host turn.command (s := (turn.make s).before) hlive
    exact ⟨delivered, Dispatched.writes_eq hwritten, hfront⟩

/-- A selection stands although the peer took nothing of the reply to it. -/
theorem last_choice_stands_unsent :
    (Turn.make ⟨Host.offering, ⟨"FEAT", ""⟩, {}, {}⟩
      (undergo
        [.dispatch ⟨Host.offering, ⟨"OPTS", "hash SHA-1"⟩, {}, { room := some 0 }⟩,
          .authenticate "joe"]
        { channel := {}, ledger := { store := [] } })).Discloses .sha1 := by
  obtain ⟨-, hdiscloses⟩ := last_choice_stands {} { store := [] }
    [.dispatch ⟨Host.offering, ⟨"OPTS", "hash SHA-1"⟩, {}, { room := some 0 }⟩,
      .authenticate "joe"]
  exact (hdiscloses ⟨Host.offering, ⟨"FEAT", ""⟩, {}, {}⟩ .clear rfl (by decide)).1

end Session

end FtpControl

import FtpControl.Command
import FtpControl.Session.Choices
import FtpControl.Session.Digests
import FtpControl.Session.Features
import FtpControl.Session.Report
import FtpControl.Session.Site
import FtpControl.Session.Verb

/-!
# Answers to commands

Every command has one answer: a reply, what the session knows of its client from then on, and what
follows once the reply is sent. All that a command asks of the storage comes before its reply.
-/

namespace FtpControl

/-- What follows a reply. -/
inductive Sequel where
  | stay
  | secure
  /-- The end of the session. -/
  | hangUp
  deriving DecidableEq, Repr

/-- The answer to a command. -/
structure Answer (σ : Type) where
  reply : Reply
  profile : Profile
  ledger : Ledger σ
  sequel : Sequel := .stay

namespace Answer

variable {σ κ : Type}

def toAuth (host : Host σ κ) (secured : Bool) (profile : Profile) (l : Ledger σ) : Answer σ :=
  if secured then ⟨.message ReplyCode.badSequence "TLS is already active", profile, l, .stay⟩
  else
    match host.tls with
    | .ok () =>
        ⟨.message ReplyCode.authAccepted "AUTH command ok. Expecting TLS Negotiation.",
          profile, l, .secure⟩
    | .error f =>
        ⟨.message ReplyCode.notTaken ("Cannot get a TLS config: " ++ f.message), profile,
          l.log .warn (host.label ++ ": no TLS config: " ++ f.message), .stay⟩

def toOption (host : Host σ κ) (param : String) (profile : Profile) (l : Ledger σ) : Answer σ :=
  let hashing := host.settings.enableHash
  { reply := Choices.optionReply hashing profile.hash param
    profile := Choices.selectHash hashing param profile
    ledger := match Choices.selection? hashing param with
      | some a => l.log .debug (host.label ++ " selected hash " ++ a.name)
      | none => l }

/-- The answer to a question for a report. -/
def toStat (host : Host σ κ) (param : String) (profile : Profile) (l : Ledger σ) : Answer σ :=
  if param = "" then { reply := Report.onSession host profile, profile, ledger := l }
  else
    let (reply, ledger) := Report.onPath host.storage param l
    { reply, profile, ledger }

/-- The answer to a word that is no verb. -/
def toUnknown (word : String) : Reply :=
  .message ReplyCode.notUnderstood ("Unknown command " ++ word)

def ofChoice (choice : Reply × Profile) (ledger : Ledger σ) : Answer σ :=
  { reply := choice.1, profile := choice.2, ledger }

/-- A reply as an answer that leaves the profile alone. -/
def ofReply (profile : Profile) (answered : Reply × Ledger σ) : Answer σ :=
  { reply := answered.1, profile, ledger := answered.2 }

/-- The answer to a command. The verb may be in any case. -/
def toCommand (host : Host σ κ) (command : Command) (secured : Bool) (profile : Profile)
    (l : Ledger σ) : Answer σ :=
  let param := command.param
  match Verb.ofText host.settings.enableHash command.verb with
  | .auth => toAuth host secured profile l
  | .prot => ofChoice (Choices.protect param profile) l
  | .pbsz => ofReply profile (.message ReplyCode.done "Whatever", l)
  | .feat => ofReply profile (Features.reply host profile.hash, l)
  | .opts => toOption host param profile l
  | .syst => ofReply profile (.message ReplyCode.systemType "UNIX Type: L8", l)
  | .stat => toStat host param profile l
  | .site => ofReply profile (SiteRequest.respond host param l)
  | .noop => ofReply profile (.message ReplyCode.done "OK", l)
  | .clnt => ofChoice (Choices.nameClient param profile) l
  | .type => ofChoice (Choices.chooseType param profile) l
  | .quit => ⟨.message ReplyCode.closing "Goodbye", profile, l, .hangUp⟩
  | .hash => ofReply profile (Digests.ofWhole host profile.hash param l)
  | .legacy a => ofReply profile (Digests.ofBounds host a param l)
  | .unknown => ofReply profile (toUnknown (Text.upper command.verb), l)

end Answer

end FtpControl

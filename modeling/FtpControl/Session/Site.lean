import FtpControl.Journal
import FtpControl.Reply
import FtpControl.ReplyCode
import FtpControl.Session.Host
import FtpControl.Text.Ascii

/-!
# Changes of permissions, owners and links

A request names what to do, then an argument, then a path; the path takes in all that follows the
second space.
-/

namespace FtpControl

/-- A change that a client asks for. -/
inductive SiteRequest where
  | chmod (permissions : Nat) (path : String)
  | chown (user : Nat) (group : Option Nat) (path : String)
  | symlink (target link : String)
  deriving DecidableEq, Repr

namespace SiteRequest

/-- The keywords of requests. -/
inductive Keyword where
  | chmod
  | chown
  | symlink
  deriving DecidableEq, Repr

namespace Keyword

def name : Keyword → String
  | chmod => "CHMOD"
  | chown => "CHOWN"
  | symlink => "SYMLINK"

/-- The keyword in lower case, as it is called in messages. -/
def label : Keyword → String
  | chmod => "chmod"
  | chown => "chown"
  | symlink => "symlink"

def arguments : Keyword → String
  | chmod => "<mode> <path>"
  | chown => "<uid>[:<gid>] <path>"
  | symlink => "<target> <link>"

def ofText? (s : String) : Option Keyword :=
  [chmod, chown, symlink].find? fun k => Text.sameKeyword s k.name

end Keyword

/-- Why a parameter is no request. -/
inductive Refusal where
  | unknown
  | usage (keyword : Keyword)
  | permissions (token : String) (cause : NumeralError)
  | owner (token : String)
  deriving DecidableEq, Repr

def Refusal.reply : Refusal → Reply
  | unknown => .message ReplyCode.notUnderstood "Not understood SITE subcommand"
  | usage k => .message ReplyCode.badArguments ("Usage: SITE " ++ k.name ++ " " ++ k.arguments)
  | permissions token cause =>
      .message ReplyCode.badArguments ("invalid mode " ++ token ++ ": " ++ cause.message)
  | owner token => .message ReplyCode.badArguments ("invalid owner " ++ token)

/-- Reads a user, or a user and a group with a colon between them. -/
def readOwner? (s : String) : Option (Nat × Option Nat) :=
  match Text.cut? ':' s with
  | none =>
      match Numeral.readId s with
      | .ok user => some (user, none)
      | .error _ => none
  | some (user, group) =>
      match Numeral.readId user, Numeral.readId group with
      | .ok user, .ok group => some (user, some group)
      | _, _ => none

def ofParts (k : Keyword) (argument path : String) : Except Refusal SiteRequest :=
  match k with
  | .chmod =>
      match Numeral.readMode argument with
      | .ok permissions => .ok (.chmod permissions path)
      | .error cause => .error (.permissions argument cause)
  | .chown =>
      match readOwner? argument with
      | some (user, group) => .ok (.chown user group path)
      | none => .error (.owner argument)
  | .symlink => .ok (.symlink argument path)

def ofParam (param : String) : Except Refusal SiteRequest :=
  match Text.cut? ' ' param with
  | none => .error .unknown
  | some (word, rest) =>
      match Keyword.ofText? word with
      | none => .error .unknown
      | some k =>
          match Text.cut? ' ' rest with
          | none => .error (.usage k)
          | some (argument, path) => ofParts k argument path

def keyword : SiteRequest → Keyword
  | chmod .. => .chmod
  | chown .. => .chown
  | symlink .. => .symlink

def subject : SiteRequest → String
  | chmod _ path => path
  | chown _ _ path => path
  | symlink _ link => link

variable {σ κ : Type}

def perform (st : Storage σ κ) (request : SiteRequest) (l : Ledger σ) :
    Except Failure Unit × Ledger σ :=
  match request with
  | chmod permissions path => l.chmod st path permissions
  | chown user group path => l.chown st path user group
  | symlink target link => l.symlink st target link

/-- Makes the change and replies whether it was made. -/
def answer (host : Host σ κ) (request : SiteRequest) (l : Ledger σ) : Reply × Ledger σ :=
  let k := request.keyword
  match request.perform host.storage l with
  | (.ok (), l) => (.message ReplyCode.done ("SITE " ++ k.name ++ " command successful"), l)
  | (.error f, l) =>
      (.message ReplyCode.notTaken ("Couldn't " ++ k.label ++ ": " ++ f.message),
        l.log .warn
          (host.label ++ ": " ++ k.label ++ " " ++ request.subject ++ ": " ++ f.message))

/-- Answers a parameter: makes the change it asks for, if it asks for one. -/
def respond (host : Host σ κ) (param : String) (l : Ledger σ) : Reply × Ledger σ :=
  if host.settings.disableSite then
    (.message ReplyCode.notUnderstood "SITE support is disabled", l)
  else
    match ofParam param with
    | .error refusal => (refusal.reply, l)
    | .ok request => request.answer host l

end SiteRequest

end FtpControl

import FtpControl.Reply
import FtpControl.ReplyCode
import FtpControl.Session.Host
import FtpControl.Storage.Checksum

/-!
# Digests on request

One verb gives the digest of a whole file under the algorithm that was selected. The legacy verbs
each stand for one algorithm, and take a range of the file as two more arguments.
-/

namespace FtpControl.Digests

variable {σ κ : Type}

/-- The description of a regular file, or the reply that there is none. Replies show the file as
`shown`. -/
def regular (st : Storage σ κ) (path shown : String) (l : Ledger σ) :
    Except Reply FileInfo × Ledger σ :=
  match l.stat st path with
  | (.error f, l) => (.error (.message ReplyCode.notTaken (shown ++ ": " ++ f.message)), l)
  | (.ok info, l) =>
      if info.isRegular then (.ok info, l)
      else (.error (.message ReplyCode.notAllowed (Failure.notRegularFile shown).message), l)

/-- The digest of a range of a file, or the reply that it cannot be had. -/
def digest (host : Host σ κ) (path : String) (a : HashAlgorithm) (range : ByteRange)
    (l : Ledger σ) : Except Reply String × Ledger σ :=
  match Checksum.ofRange host.storage path a range l with
  | (.ok hex, l) => (.ok hex, l)
  | (.error f, l) =>
      (.error (.message ReplyCode.notTaken (path ++ ": " ++ f.message)),
        l.log .warn
          (host.label ++ ": " ++ a.name ++ " of " ++ path ++ " failed: " ++ f.message))

def heading (a : HashAlgorithm) : String := "Computing " ++ a.name ++ " digest\r\n"

/-- The line of a digest of a whole file. -/
def wholeLine (a : HashAlgorithm) (size : Nat) (hex path : String) : String :=
  a.name ++ " 0-" ++ toString size ++ " " ++ hex ++ " " ++ path

def ofWhole (host : Host σ κ) (a : HashAlgorithm) (path : String) (l : Ledger σ) :
    Reply × Ledger σ :=
  match regular host.storage path path l with
  | (.error reply, l) => (reply, l)
  | (.ok info, l) =>
      match digest host path a ⟨0, info.size⟩ l with
      | (.error reply, l) => (reply, l)
      | (.ok hex, l) =>
          (.message ReplyCode.fileStatus (heading a ++ wholeLine a info.size hex path), l)

/-- A path and the bounds after it, cut at the first two spaces. -/
def pathAndBounds (param : String) : String × List String :=
  match Text.cutUpTo ' ' 2 param with
  | [] => (param, [])
  | path :: bounds => (path, bounds)

/-- The digest of a range of a file. -/
def ofBounds (host : Host σ κ) (a : HashAlgorithm) (param : String) (l : Ledger σ) :
    Reply × Ledger σ :=
  let (path, bounds) := pathAndBounds param
  match regular host.storage path param l with
  | (.error reply, l) => (reply, l)
  | (.ok info, l) =>
      match ByteRange.ofTokens bounds info.size with
      | .error refusal => (.message ReplyCode.badArguments refusal.message, l)
      | .ok range =>
          match digest host path a range l with
          | (.error reply, l) => (reply, l)
          | (.ok hex, l) => (.message ReplyCode.fileDone (heading a ++ hex), l)

end FtpControl.Digests

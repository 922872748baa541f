import FtpControl.Duration
import FtpControl.Journal
import FtpControl.Reply
import FtpControl.ReplyCode
import FtpControl.Session.Host
import FtpControl.Session.Profile

/-! # Reports on the session and on files -/

namespace FtpControl.Report

variable {σ κ : Type}

/-- A report that something could not be described. -/
def failing (path : String) (f : Failure) : Reply :=
  .message ReplyCode.notTaken (path ++ ": " ++ f.message)

/-! ## The session -/

/-- Where the session runs, from where, and for how long. -/
def connection (host : Host σ κ) : String :=
  "Connected to " ++ host.settings.listenAddr ++ " from " ++ host.peerText ++ " for " ++
    Duration.text host.elapsed

def login (profile : Profile) : String :=
  if profile.user = "" then "Not logged in yet" else "Logged in as " ++ profile.user

def onSession (host : Host σ κ) (profile : Profile) : Reply :=
  .block ReplyCode.fileStatus "Server status"
    [connection host, login profile, host.settings.banner] "End of status"

/-! ## Files -/

/-- The report on what a path names, one fact line for each entry. -/
def listing (path : String) (entries : List FileInfo) : Reply :=
  .block ReplyCode.fileStatus ("Status of " ++ path) (entries.map FileInfo.factLine)
    "End of status"

/-- The report on a path: on the entries of a directory, and on anything else itself. -/
def onPath (st : Storage σ κ) (path : String) (l : Ledger σ) : Reply × Ledger σ :=
  match l.stat st path with
  | (.error f, l) => (failing path f, l)
  | (.ok info, l) =>
      if info.isDirectory then
        match l.readDir st path with
        | (.error f, l) => (failing path f, l)
        | (.ok entries, l) => (listing path entries, l)
      else (listing path [info], l)

end FtpControl.Report

import FtpControl.Reply
import FtpControl.ReplyCode
import FtpControl.Session.Host
import FtpControl.Session.Profile

/-! # The features that a server advertises -/

namespace FtpControl.Features

variable {σ κ : Type}

def always : List String := ["CLNT", "UTF8", "SIZE", "MDTM", "REST STREAM"]

def offered (present : Bool) (feature : String) : List String :=
  if present then [feature] else []

/-- What the digest commands offer: the algorithms, the selected one starred, and the verbs that
each ask for one of them. -/
def digests (hashing : Bool) (selected : HashAlgorithm) : List String :=
  if hashing then selected.featureLine :: HashAlgorithm.legacyVerbs.map Prod.fst else []

/-- All features, in the order in which they are advertised. -/
def list (host : Host σ κ) (selected : HashAlgorithm) : List String :=
  always ++ offered (!host.settings.disableMlsd) "MLSD" ++
    offered (!host.settings.disableMlst) "MLST" ++
    offered (!host.settings.disableMfmt) "MFMT" ++
    offered host.offersTls "AUTH TLS" ++
    digests host.settings.enableHash selected

def reply (host : Host σ κ) (selected : HashAlgorithm) : Reply :=
  .block ReplyCode.systemStatus "Features:" (list host selected) "End"

end FtpControl.Features

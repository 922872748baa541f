import FtpControl.Channel.Handshake
import FtpControl.Settings
import FtpControl.Storage.Basic

/-! # What a session runs against -/

namespace FtpControl

/-- The surroundings of a session; nothing in it changes them. -/
structure Host (σ κ : Type) where
  settings : Settings
  storage : Storage σ κ
  /-- Whether TLS is set up, or why it is not. -/
  tls : Except Failure Unit
  /-- How the TLS in use tells of bytes that spoil the opening of a handshake. -/
  spoiledText : Opening → List UInt8 → String := fun _ _ => ""
  /-- The name under which the session is logged. -/
  id : String
  /-- The address of the peer, when it is known. -/
  peer : Option String := none
  /-- How many whole seconds the session has lasted. -/
  elapsed : Nat := 0

namespace Host

variable {σ κ : Type}

def label (host : Host σ κ) : String := "FTP session " ++ host.id

def peerText (host : Host σ κ) : String := host.peer.getD "unknown"

def offersTls (host : Host σ κ) : Bool :=
  match host.tls with
  | .ok () => true
  | .error _ => false

end Host

end FtpControl

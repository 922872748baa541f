import FtpControl.Digest.Algorithm

/-! # What a client has told of itself and chosen -/

namespace FtpControl

/-- How file contents are transferred. -/
inductive TransferType where
  | ascii
  | binary
  deriving DecidableEq, Repr

/-- What is known of a client, and what it has chosen. -/
structure Profile where
  /-- The user that was authenticated; empty before that. -/
  user : String := ""
  /-- The name that the client software gave itself. -/
  clientName : String := ""
  /-- Whether data transfers are to be protected. -/
  privateTransfers : Bool := false
  hash : HashAlgorithm := .preset
  transferType : TransferType := .binary
  deriving DecidableEq, Repr

end FtpControl

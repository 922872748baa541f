import FtpControl.Failure

/-! # The digest algorithms on offer -/

namespace FtpControl

/-- A digest algorithm. -/
inductive HashAlgorithm where
  | crc32
  | md5
  | sha1
  | sha256
  | sha512
  deriving DecidableEq, Repr

namespace HashAlgorithm

/-- All algorithms, in the order in which they are advertised. -/
def all : List HashAlgorithm := [crc32, md5, sha1, sha256, sha512]

/-- The name under which an algorithm is advertised, selected and reported. -/
def name : HashAlgorithm → String
  | crc32 => "CRC32"
  | md5 => "MD5"
  | sha1 => "SHA-1"
  | sha256 => "SHA-256"
  | sha512 => "SHA-512"

/-- The algorithm of a session that has selected none. -/
def preset : HashAlgorithm := sha256

def ofName? (s : String) : Option HashAlgorithm := all.find? fun a => a.name == s

/-- The algorithm of exactly this name, or the failure that there is none. -/
def ofName (s : String) : Except Failure HashAlgorithm :=
  match ofName? s with
  | some a => .ok a
  | none => .error (.unknownHashAlgorithm s)

/-- The verbs that each ask for one algorithm, whatever is selected. -/
def legacyVerbs : List (String × HashAlgorithm) :=
  [("XCRC", crc32), ("MD5", md5), ("XMD5", md5), ("XSHA", sha1), ("XSHA1", sha1),
   ("XSHA256", sha256), ("XSHA512", sha512)]

/-- The algorithm that a legacy verb asks for. -/
def ofLegacyVerb? (verb : String) : Option HashAlgorithm := legacyVerbs.lookup verb

/-- The feature line: every name, the selected one starred, each with a semicolon. -/
def featureLine (selected : HashAlgorithm) : String :=
  String.join (all.map fun a => a.name ++ (if a = selected then "*;" else ";"))

end HashAlgorithm

end FtpControl

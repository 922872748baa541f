/-!
# Failures

What can go wrong in a session or behind it. A failure has a kind, by which a caller tells causes
apart, and a message for people. Each cause known here has one constructor function that fixes its
wording; a storage may report any kind with any message.
-/

namespace FtpControl

/-- The kinds of failure. -/
inductive FailureKind where
  | unknownHashAlgorithm
  | notFound
  | notRegularFile
  | invalidRange
  | invalidArgument
  | unexpectedEof
  | io
  | backend
  | tlsUnavailable
  | tlsFailed
  | unsupported
  | disconnected
  | lineTooLong
  | outsideRoot
  deriving DecidableEq, Repr

/-- A failure: its kind and its message. -/
structure Failure where
  kind : FailureKind
  message : String
  deriving DecidableEq, Repr

namespace Failure

def unknownHashAlgorithm (name : String) : Failure :=
  ⟨.unknownHashAlgorithm, s!"unknown hash algorithm '{name}'"⟩

/-- The path names something that is not a regular file. -/
def notRegularFile (path : String) : Failure :=
  ⟨.notRegularFile, s!"{path} is not a regular file"⟩

def invalidRange (start stop : Nat) : Failure :=
  ⟨.invalidRange, s!"invalid range {start}-{stop}"⟩

/-- The content ended before all bytes asked for were read. -/
def unexpectedEof (expected got : Nat) : Failure :=
  ⟨.unexpectedEof, s!"unexpected end of file after {got} of {expected} bytes"⟩

def lineTooLong (limit : Nat) : Failure :=
  ⟨.lineTooLong, s!"command line longer than {limit} bytes"⟩

/-- The path leads out of the served directory. -/
def outsideRoot (path : String) : Failure :=
  ⟨.outsideRoot, s!"{path} resolves outside the served directory"⟩

def channelClosed : Failure := ⟨.disconnected, "control channel is closed"⟩

def alreadySecure : Failure := ⟨.tlsFailed, "cannot upgrade: connection is already TLS"⟩

/-- The TLS handshake with the peer failed. -/
def handshakeFailed (cause : String) : Failure := ⟨.tlsFailed, s!"Explicit TLS handshake: {cause}"⟩

def cannotList (path : String) : Failure := ⟨.unsupported, s!"cannot list {path}"⟩

def chmodUnsupported (path : String) : Failure :=
  ⟨.unsupported, s!"chmod not supported on {path}"⟩

def chownUnsupported (path : String) : Failure :=
  ⟨.unsupported, s!"chown not supported on {path}"⟩

def symlinkUnsupported (link : String) : Failure :=
  ⟨.unsupported, s!"symlink not supported for {link}"⟩

end Failure

end FtpControl

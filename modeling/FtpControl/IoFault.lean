import FtpControl.Failure
import FtpControl.SystemError

/-!
# Faults of streams and files

A fault comes from the operating system, with its number, or from the transport, with a kind and
perhaps a message of its own.
-/

namespace FtpControl

/-- The kinds of fault that a transport reports. -/
inductive IoKind where
  | notFound
  | unexpectedEof
  | permissionDenied
  | connectionReset
  | brokenPipe
  | timedOut
  | invalidData
  | alreadyExists
  | interrupted
  | wouldBlock
  | notConnected
  | other
  deriving DecidableEq, Repr

namespace IoKind

/-- How a kind is described when the fault has no message. -/
def description : IoKind → String
  | notFound => "entity not found"
  | unexpectedEof => "unexpected end of file"
  | permissionDenied => "permission denied"
  | connectionReset => "connection reset"
  | brokenPipe => "broken pipe"
  | timedOut => "timed out"
  | invalidData => "invalid data"
  | alreadyExists => "entity already exists"
  | interrupted => "operation interrupted"
  | wouldBlock => "operation would block"
  | notConnected => "not connected"
  | other => "other error"

end IoKind

/-- A fault of a stream or a file. -/
inductive IoFault where
  /-- An error number of the operating system. -/
  | system (error : SystemError)
  /-- A kind with its usual description. -/
  | plain (kind : IoKind)
  /-- A kind with a message. -/
  | custom (kind : IoKind) (text : String)
  deriving DecidableEq, Repr

namespace IoFault

/-- The kinds of the system's errors, as far as a kind makes a difference. -/
def systemKind (e : SystemError) : IoKind :=
  if e = .noEntry then .notFound
  else if e = .interrupted then .interrupted
  else if e = .tryAgain then .wouldBlock
  else if e = .notConnected then .notConnected
  else .other

def kind : IoFault → IoKind
  | system e => systemKind e
  | plain k => k
  | custom k _ => k

def text : IoFault → String
  | system e => e.text
  | plain k => k.description
  | custom _ t => t

/-- A fault as a failure of the session: missing entries and early ends keep their kind. -/
def toFailure (fault : IoFault) : Failure :=
  match fault.kind with
  | .notFound => ⟨.notFound, fault.text⟩
  | .unexpectedEof => ⟨.unexpectedEof, fault.text⟩
  | _ => ⟨.io, fault.text⟩

end IoFault

end FtpControl

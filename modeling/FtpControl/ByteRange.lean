import FtpControl.Failure
import FtpControl.Numeral

/-!
# Byte ranges

A range takes in the bytes from its start up to but without its stop. The legacy digest verbs give
the bounds of a range as two optional numerals.
-/

namespace FtpControl

/-- A range of bytes. -/
structure ByteRange where
  start : Nat
  stop : Nat
  deriving DecidableEq, Repr

namespace ByteRange

/-- Why arguments name no range of a file. -/
inductive Refusal where
  | start (token : String) (cause : NumeralError)
  | stop (token : String) (cause : NumeralError)
  | bounds (first last size : Nat)
  deriving DecidableEq, Repr

namespace Refusal

def message : Refusal → String
  | .start token cause => s!"invalid start offset {token}: {cause.message}"
  | .stop token cause => s!"invalid end offset {token}: {cause.message}"
  | .bounds first last size => s!"invalid range {first}-{last} for a file of {size} bytes"

def toFailure (r : Refusal) : Failure := ⟨.invalidArgument, r.message⟩

end Refusal

/-- Reads one bound, which has a preset when it is not given. -/
def readBound (refuse : String → NumeralError → Refusal) (token : Option String) (preset : Nat) :
    Except Refusal Nat :=
  match token with
  | none => .ok preset
  | some t =>
      match Numeral.readOffset t with
      | .ok n => .ok n
      | .error cause => .error (refuse t cause)

/-- The range that the first two tokens name in a file of the given size; further tokens have
no meaning. -/
def ofTokens (tokens : List String) (size : Nat) : Except Refusal ByteRange := do
  let start ← readBound .start tokens[0]? 0
  let stop ← readBound .stop tokens[1]? size
  if stop < start ∨ size < stop then .error (.bounds start stop size)
  else .ok ⟨start, stop⟩

end ByteRange

end FtpControl

import FtpControl.Text.Ascii
import FtpControl.Text.Split

/-! # Command lines -/

namespace FtpControl

/-- A command line taken apart. -/
structure Command where
  /-- The first word, in upper case. -/
  verb : String
  /-- All that follows the first space, as it was sent. -/
  param : String
  deriving DecidableEq, Repr

namespace Command

/-- Takes a command line apart at its first space. -/
def ofLine (text : String) : Command :=
  let trimmed := Text.trimLineEnd text
  match Text.cut? ' ' trimmed with
  | some (verb, param) => ⟨Text.upper verb, param⟩
  | none => ⟨Text.upper trimmed, ""⟩

end Command

end FtpControl

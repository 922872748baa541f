import FtpControl.Time.Timestamp

/-! # What a listing tells of a file -/

namespace FtpControl

/-- What kind of entry a path names. -/
inductive FileKind where
  | file
  | directory
  | symlink
  | other
  deriving DecidableEq, Repr

namespace FileKind

def fact : FileKind → String
  | file => "file"
  | directory => "dir"
  | symlink => "OS.unix=symlink"
  | other => "OS.unix=special"

end FileKind

/-- The description of a file. -/
structure FileInfo where
  name : String
  kind : FileKind
  size : Nat
  modified : Option Timestamp := none
  mode : Option Nat := none
  deriving DecidableEq, Repr

namespace FileInfo

def isRegular (info : FileInfo) : Bool := info.kind = .file

def isDirectory (info : FileInfo) : Bool := info.kind = .directory

/-- The permission bits of a mode: the lowest twelve. -/
def permissions (mode : Nat) : Nat := mode % 4096

/-- The facts that are known, each with its semicolon, then a space and the name. -/
def factLine (info : FileInfo) : String :=
  "type=" ++ info.kind.fact ++ ";size=" ++ toString info.size ++ ";" ++
    (match info.modified with
      | some t => "modify=" ++ t.compact ++ ";"
      | none => "") ++
    (match info.mode with
      | some m => "UNIX.mode=" ++ Numeral.octal 4 (permissions m) ++ ";"
      | none => "") ++
    " " ++ info.name

end FileInfo

end FtpControl

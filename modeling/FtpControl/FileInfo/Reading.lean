import FtpControl.FileInfo
import FtpControl.Json.Reading
import FtpControl.Time.Reading

/-! # Reading the description of a file from JSON -/

namespace FtpControl

open Json

namespace FileKind

def ofName? : String → Option FileKind
  | "file" => some file
  | "directory" => some directory
  | "symlink" => some symlink
  | "other" => some other
  | _ => none

def name : FileKind → String
  | file => "file"
  | directory => "directory"
  | symlink => "symlink"
  | other => "other"

/-- A kind is written as its name, or as an object whose only member has that name and no
value. -/
def ofValue? : Value → Option FileKind
  | .string (some s) => ofName? s
  | .object [(some s, .null)] => ofName? s
  | _ => none

end FileKind

namespace FileInfo

def time? (v : Value) : Option Timestamp := v.text?.bind Timestamp.read?

/-- A description from named members. Time and mode may be left out; unknown members are
ignored. -/
def ofMembers? (members : List (Option String × Value)) : Option FileInfo := do
  let name ← readMember? members "name" none Value.text?
  let kind ← readMember? members "kind" none FileKind.ofValue?
  let size ← readMember? members "size" none (Value.natBelow? UInt64.size)
  let modified ← readMember? members "modified" (some none) (Value.orNull time?)
  let mode ← readMember? members "mode" (some none) (Value.orNull (Value.natBelow? UInt32.size))
  if namesReadable members then some { name, kind, size, modified, mode } else none

/-- A description from its five values in order. -/
def ofItems? : List Value → Option FileInfo
  | [name, kind, size, modified, mode] => do
      let name ← name.text?
      let kind ← FileKind.ofValue? kind
      let size ← size.natBelow? UInt64.size
      let modified ← Value.orNull time? modified
      let mode ← Value.orNull (Value.natBelow? UInt32.size) mode
      some { name, kind, size, modified, mode }
  | _ => none

def ofValue? : Value → Option FileInfo
  | .object members => ofMembers? members
  | .array items => ofItems? items
  | _ => none

def ofJson? (text : String) : Option FileInfo := (readDocument? text).bind ofValue?

end FileInfo

end FtpControl

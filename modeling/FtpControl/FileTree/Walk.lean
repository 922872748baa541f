import FtpControl.FileTree
import FtpControl.IoFault
import FtpControl.Text.Split

/-!
# Walking along paths

A path is walked name by name, from the top or from the working directory. Symbolic links on the
way are followed, at most forty of them in one walk. Every name but the last must lead to a
directory; a slash at the end demands that the last does, too, which a file to be made never can.
A walk can spell out the path from the top to every place it comes to, as far as such paths are not
too long for the system.
-/

namespace FtpControl

/-- Where a walk ends. -/
inductive Spot where
  | taken (place : Location)
  /-- In a directory that has no such name. -/
  | free (directory : Location) (name : String)
  deriving DecidableEq, Repr

/-- What a walk does at the last name. -/
inductive Ending where
  | follow
  /-- It stays at a link. -/
  | keep
  /-- It follows a link, and a file is to be made if there is nothing. -/
  | create
  /-- It follows a link, and has spelled out the paths of all places on the way. -/
  | spell
  deriving DecidableEq, Repr

namespace Spot

/-- The place of a node that is there. -/
def place : Spot → Except IoFault Location
  | taken place => .ok place
  | free .. => .error (.system .noEntry)

end Spot

namespace FileTree

/-- The most links that are followed in one walk. -/
def linkLimit : Nat := 40

def nameLimit : Nat := 255

def pathLimit : Nat := 4095

/-- The names in a path. A slash at the end leaves an empty name there. -/
def names (path : String) : List String :=
  match (Text.split '/' path).reverse with
  | [] => []
  | last :: before => before.reverse.filter (· ≠ "") ++ [last]

/-- Where a path starts, seen from a directory. -/
def origin (directory : Location) (path : String) : Location :=
  if path.toList.head? = some '/' then [] else directory

/-- The size of the path from the top to a place. -/
def spelledSize : Location → Nat
  | [] => 0
  | name :: rest => 1 + name.utf8ByteSize + spelledSize rest

/-- Whether a name at a place has too long a path from the top. Parent names and the like are none
that have a path of their own. -/
def isTooFar (place : Location) (name : String) : Bool :=
  name != "" && name != "." && name != ".." && pathLimit < spelledSize (place ++ [name])

/-- Walks along names from a place, with so many links left to follow. -/
def walk (t : FileTree) (ending : Ending) (links : Nat) (place : Location) :
    List String → Except SystemError Spot
  | [] => .ok (.taken place)
  | name :: rest =>
      if ending = .spell ∧ isTooFar place name then .error .nameTooLong
      else if !t.isDirectory place then .error .notDirectory
      else if name = "" ∨ name = "." then walk t ending links place rest
      else if name = ".." then walk t ending links place.dropLast rest
      else if ending = .create ∧ rest = [""] then .error .isDirectory
      else if nameLimit < name.utf8ByteSize then .error .nameTooLong
      else
        match t.node? (place ++ [name]) with
        | none => if rest = [] then .ok (.free place name) else .error .noEntry
        | some ⟨.link target, _, _⟩ =>
            if rest = [] ∧ ending = .keep then .ok (.taken (place ++ [name]))
            else if target = "" then .error .noEntry
            else
              match links with
              | 0 => .error .tooManyLinks
              | links + 1 => walk t ending links (origin place target) (names target ++ rest)
        | some _ => walk t ending links (place ++ [name]) rest
termination_by names => (links, names.length)

/-- The fault of a path that no system call takes. -/
def nulFault : IoFault := .custom .other "file name contained an unexpected NUL byte"

def reach (t : FileTree) (ending : Ending) (path : String) : Except IoFault Spot :=
  if path.toList.contains '\x00' then .error nulFault
  else if path = "" then .error (.system .noEntry)
  else
    (t.walk ending linkLimit (origin t.workingDirectory path) (names path)).mapError
      IoFault.system

/-- Walks along the path of a system call, which must not be too long. -/
def reachWithin (t : FileTree) (ending : Ending) (path : String) : Except IoFault Spot :=
  if pathLimit < path.utf8ByteSize then .error (.system .nameTooLong)
  else t.reach ending path

end FileTree

end FtpControl

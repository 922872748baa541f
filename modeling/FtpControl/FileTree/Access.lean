import FtpControl.FileTree.Walk
import FtpControl.Storage.Basic

/-!
# What a process may do with a file tree

The process may read and write everything, and owns everything, but may not give anything away.
Each operation takes a path; those that fail leave the tree as it was.
-/

namespace FtpControl

/-- An open file. -/
structure FileHandle where
  place : Location
  position : Nat
  /-- Whether it was opened for reading. -/
  readable : Bool
  deriving DecidableEq, Repr

namespace FileTree

/-! ## Looking -/

/-- The place of what a path leads to, spelled out from the top. -/
def canonical (t : FileTree) (path : String) : Except IoFault Location := do
  (← t.reach .spell path).place

/-- The place of what a path leads to, in a system call. -/
def locate (t : FileTree) (path : String) : Except IoFault Location := do
  (← t.reachWithin .follow path).place

def stat (t : FileTree) (path : String) : Except IoFault Node := do
  match t.node? (← t.locate path) with
  | some node => .ok node
  | none => .error (.system .noEntry)

/-- The entries of a directory with their names, in any order. -/
def list (t : FileTree) (path : String) : Except IoFault (List (String × Node)) := do
  let place ← t.locate path
  if t.isDirectory place then .ok (t.children place) else .error (.system .notDirectory)

/-! ## Changing -/

/-- The place of a node that is to be changed. -/
def find (t : FileTree) (path : String) : Except IoFault Location := do
  let place ← t.locate path
  if (t.node? place).isSome then .ok place else .error (.system .noEntry)

def chmod (t : FileTree) (path : String) (permissions : Nat) : Except IoFault FileTree := do
  let place ← t.find path
  .ok (t.update place fun node =>
    { node with permissions := FileInfo.permissions permissions })

/-- The number that leaves an owner or a group as it is. -/
def unchangedId : Nat := 4294967295

/-- Whether an owner or a group stays as it is: everything belongs to number 0. -/
def keepsId (id : Nat) : Bool := id = 0 || id = unchangedId

/-- The bit by which a file runs as its owner. -/
def setUserBit : Nat := 11

/-- The bit by which a file runs as its group. -/
def setGroupBit : Nat := 10

/-- The bit by which a group may run a file. -/
def groupRunBit : Nat := 3

def dropBit (bit permissions : Nat) : Nat :=
  if permissions.testBit bit then permissions - 1 <<< bit else permissions

/-- Permission bits without those by which a file runs as somebody else. -/
def withoutSetIds (permissions : Nat) : Nat :=
  let permissions := dropBit setUserBit permissions
  if permissions.testBit groupRunBit then dropBit setGroupBit permissions else permissions

/-- Sets owner and group, which have to stay the same. A file is no longer run as somebody else
after that. -/
def chown (t : FileTree) (path : String) (user : Nat) (group : Option Nat) :
    Except IoFault FileTree := do
  let place ← t.find path
  if keepsId user && keepsId (group.getD unchangedId) then
    .ok (t.update place fun node =>
      if node.content = .directory then node
      else { node with permissions := withoutSetIds node.permissions })
  else .error (.system .notPermitted)

def symlink (t : FileTree) (target link : String) : Except IoFault FileTree := do
  if pathLimit < target.utf8ByteSize then .error (.system .nameTooLong)
  else
    match ← t.reachWithin .keep link with
    | .taken _ => .error (.system .alreadyThere)
    | .free directory name =>
        .ok (t.insert (directory ++ [name]) ⟨.link target, 0o777, t.now⟩)

/-! ## Opening -/

/-- The fault of a mode that allows nothing. -/
def noAccess : IoFault :=
  .custom .other "must specify at least one of read, write, or append access"

/-- The fault of a mode that would change a file without the right to write. -/
def noWriteAccess : IoFault :=
  .custom .other "creating or truncating a file requires write or append access"

def checkMode (mode : OpenMode) : Except IoFault Unit :=
  let changes := mode.create || mode.truncate
  if mode.append then if mode.truncate then .error noWriteAccess else .ok ()
  else if mode.write then .ok ()
  else if changes then .error noWriteAccess
  else if mode.read then .ok ()
  else .error noAccess

/-- The permission bits of a new file, of those asked for: others do not get to write. -/
def granted (permissions : Nat) : Nat := FileInfo.permissions permissions &&& 0o7755

def openNode (t : FileTree) (place : Location) (mode : OpenMode) :
    Except IoFault (FileHandle × FileTree) :=
  let handle : FileHandle := ⟨place, 0, mode.read⟩
  match t.node? place with
  | none => .error (.system .noEntry)
  | some node =>
      match node.content with
      | .directory =>
          if mode.write || mode.append then .error (.system .isDirectory) else .ok (handle, t)
      | .special => .error (.system .noDevice)
      | .link _ => .error (.system .tooManyLinks)
      | .file _ =>
          if mode.truncate then
            .ok (handle, t.update place fun node =>
              { node with content := .file [], modified := t.now })
          else .ok (handle, t)

def create (t : FileTree) (place : Location) (mode : OpenMode) (permissions : Nat) :
    FileHandle × FileTree :=
  (⟨place, 0, mode.read⟩, t.insert place ⟨.file [], granted permissions, t.now⟩)

/-- Opens a file at its beginning. Links are followed, also to a file that is to be made. -/
def openFile (t : FileTree) (path : String) (mode : OpenMode) (permissions : Nat) :
    Except IoFault (FileHandle × FileTree) := do
  checkMode mode
  match ← t.reachWithin (if mode.create then .create else .follow) path with
  | .taken place => t.openNode place mode
  | .free directory name =>
      if mode.create then .ok (t.create (directory ++ [name]) mode permissions)
      else .error (.system .noEntry)

/-! ## Handles -/

def offsetLimit : Nat := 1 <<< 63

/-- Moves a handle. The end of a file is no bound. -/
def seek (handle : FileHandle) (offset : Nat) : Except IoFault FileHandle :=
  if offset < offsetLimit then .ok { handle with position := offset }
  else .error (.system .invalidArgument)

/-- Reads bytes, at most so many, and moves the handle behind them. -/
def read (t : FileTree) (handle : FileHandle) (most : Nat) :
    Except IoFault (List UInt8 × FileHandle) :=
  if !handle.readable then .error (.system .badDescriptor)
  else
    match (t.node? handle.place).map Node.content with
    | some (.file data) =>
        let bytes := (data.drop handle.position).take most
        .ok (bytes, { handle with position := handle.position + bytes.length })
    | some .directory => .error (.system .isDirectory)
    | _ => .error (.system .badDescriptor)

end FileTree

end FtpControl

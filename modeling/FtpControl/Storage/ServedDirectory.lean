import FtpControl.FileTree.Access

/-!
# A directory as a storage

The paths of a session are taken below a directory. Parent names in them are dropped. What a path
leads to, links followed, must lie in that directory; a path that leads to nothing is judged by
where its parent leads.
-/

namespace FtpControl

/-- A directory that is served, by its path. -/
structure ServedDirectory where
  root : String
  deriving DecidableEq, Repr

namespace ServedDirectory

/-! ## Paths -/

/-- Whether a part of a path names an entry. -/
def isName (part : String) : Bool := part != "" && part != "." && part != ".."

/-- The parts of a path that name entries. -/
def segments (path : String) : List String := (Text.split '/' path).filter isName

/-- Whether a name can follow a path without a slash between them. -/
def isOpen (path : String) : Bool := path = "" || path.toList.getLast? = some '/'

def join (path name : String) : String :=
  if isOpen path then path ++ name else path ++ "/" ++ name

def pathOf (d : ServedDirectory) : List String → String
  | [] => d.root
  | name :: rest => rest.foldl (fun path name => path ++ "/" ++ name) (join d.root name)

/-- The path that a path of the session stands for. -/
def resolve (d : ServedDirectory) (path : String) : String := d.pathOf (segments path)

/-- The last name of a path; a path that ends in a parent name has none. -/
def lastName? (path : String) : Option String :=
  match ((Text.split '/' path).filter fun part => part != "" && part != ".").getLast? with
  | some name => if name = ".." then none else some name
  | none => none

/-! ## Confinement -/

/-- Where a path leads, or where its parent leads when it leads to nothing. -/
def destination (d : ServedDirectory) (path : String) (t : FileTree) :
    Except IoFault Location :=
  match t.canonical (d.resolve path) with
  | .ok place => .ok place
  | .error fault =>
      if fault.kind = .notFound ∧ segments path ≠ [] then
        t.canonical (d.pathOf (segments path).dropLast)
      else .error fault

/-- The path that a path of the session stands for, if it leads nowhere else. -/
def confine (d : ServedDirectory) (path : String) (t : FileTree) : Except Failure String := do
  let home ← (t.canonical d.root).mapError IoFault.toFailure
  let place ← (d.destination path t).mapError IoFault.toFailure
  if home.isPrefixOf place then .ok (d.resolve path) else .error (.outsideRoot path)

/-! ## Requests -/

/-- A question to the tree about a confined path. -/
def query {α : Type} (d : ServedDirectory) (path : String) (t : FileTree)
    (ask : String → Except IoFault α) : Except Failure α := do
  (ask (← d.confine path t)).mapError IoFault.toFailure

/-- A change of the tree, which stays as it is when the change fails. -/
def change (t : FileTree) : Except Failure FileTree → Except Failure Unit × FileTree
  | .ok t => (.ok (), t)
  | .error f => (.error f, t)

/-- The description of what a path leads to. -/
def stat (d : ServedDirectory) (path : String) (t : FileTree) : Except Failure FileInfo :=
  d.query path t fun file =>
    (t.stat file).map fun node => node.info ((lastName? file).getD "/")

/-- The descriptions of the entries of a directory, by name. Links are not followed. -/
def readDir (d : ServedDirectory) (path : String) (t : FileTree) :
    Except Failure (List FileInfo) :=
  d.query path t fun file =>
    (t.list file).map fun entries =>
      (entries.map fun (name, node) => node.info name).mergeSort fun a b => a.name ≤ b.name

def chmod (d : ServedDirectory) (path : String) (permissions : Nat) (t : FileTree) :
    Except Failure FileTree :=
  d.query path t fun file => t.chmod file permissions

def chown (d : ServedDirectory) (path : String) (user : Nat) (group : Option Nat)
    (t : FileTree) : Except Failure FileTree :=
  d.query path t fun file => t.chown file user group

/-- Makes a link to the path that the target stands for. -/
def symlink (d : ServedDirectory) (target link : String) (t : FileTree) :
    Except Failure FileTree := do
  let target ← d.confine target t
  d.query link t fun file => t.symlink target file

def openFile (d : ServedDirectory) (path : String) (mode : OpenMode) (permissions : Nat)
    (t : FileTree) : Except Failure FileHandle × FileTree :=
  match d.query path t fun file => t.openFile file mode permissions with
  | .ok (handle, t) => (.ok handle, t)
  | .error f => (.error f, t)

/-- The permission bits asked for when a file is opened at an offset. -/
def usualPermissions : Nat := 0o666

def openAt (d : ServedDirectory) (path : String) (mode : OpenMode) (offset : Nat)
    (t : FileTree) : Except Failure FileHandle × FileTree :=
  match d.openFile path mode usualPermissions t with
  | (.error f, t) => (.error f, t)
  | (.ok handle, t) => ((FileTree.seek handle offset).mapError IoFault.toFailure, t)

def storage (d : ServedDirectory) : Storage FileTree FileHandle where
  stat path t := (d.stat path t, t)
  openFile := d.openFile
  openAt? := some d.openAt
  seek handle offset t :=
    match FileTree.seek handle offset with
    | .ok handle => (.ok (), handle, t)
    | .error fault => (.error fault, handle, t)
  read handle most t :=
    match t.read handle most with
    | .ok (bytes, handle) => (.ok bytes, handle, t)
    | .error fault => (.error fault, handle, t)
  release _ t := t
  readDir path t := (d.readDir path t, t)
  chmod path permissions t := change t (d.chmod path permissions t)
  chown path user group t := change t (d.chown path user group t)
  symlink target link t := change t (d.symlink target link t)

end ServedDirectory

end FtpControl

import FtpControl.FileInfo

/-!
# File trees

A tree holds nodes at locations: files, directories, symbolic links, and others, such as sockets.
The directory at the top is always there. Hard links are not represented: every node is at one
location, so that what is changed at a location is changed there alone.
-/

namespace FtpControl

/-- The names that lead to a node from the top. -/
abbrev Location := List String

/-- What a node holds, by kind. -/
inductive Content where
  | file (data : List UInt8)
  | directory
  | link (target : String)
  | special
  deriving DecidableEq, Repr

namespace Content

/-- The kind under which a listing shows a node. -/
def kind : Content → FileKind
  | file _ => .file
  | directory => .directory
  | link _ => .symlink
  | special => .other

def size : Content → Nat
  | file data => data.length
  | directory => 4096
  | link target => target.utf8ByteSize
  | special => 0

/-- The bits of a mode that tell the kind. -/
def typeBits : Content → Nat
  | file _ => 0o100000
  | directory => 0o040000
  | link _ => 0o120000
  | special => 0o140000

end Content

/-- A node: what it holds, its permission bits, and when it was changed. -/
structure Node where
  content : Content
  permissions : Nat
  modified : Timestamp := ⟨0, 0⟩
  deriving DecidableEq, Repr

namespace Node

/-- The description of a node under a name. -/
def info (node : Node) (name : String) : FileInfo :=
  { name
    kind := node.content.kind
    size := node.content.size
    modified := some node.modified
    mode := some (node.content.typeBits + FileInfo.permissions node.permissions) }

end Node

/-- A file tree, as a process with a working directory sees it. -/
structure FileTree where
  /-- What is below the top, by location. -/
  nodes : List (Location × Node) := []
  workingDirectory : Location := []
  now : Timestamp := ⟨0, 0⟩
  /-- The permission bits of the directory at the top. -/
  topPermissions : Nat := 0o755
  deriving Repr

namespace FileTree

def top (t : FileTree) : Node := ⟨.directory, t.topPermissions, ⟨0, 0⟩⟩

/-- All nodes with their locations, the top first. -/
def entries (t : FileTree) : List (Location × Node) := ([], t.top) :: t.nodes

def node? (t : FileTree) (place : Location) : Option Node := t.entries.lookup place

/-- Whether there is a directory at a location. -/
def isDirectory (t : FileTree) (place : Location) : Bool :=
  match t.node? place with
  | some node => node.content = .directory
  | none => false

/-- The tree with a new node; a node that is already there stays in front of it. -/
def insert (t : FileTree) (place : Location) (node : Node) : FileTree :=
  { t with nodes := t.nodes ++ [(place, node)] }

/-- The tree with the node at a location changed. The top stays a directory. -/
def update (t : FileTree) (place : Location) (change : Node → Node) : FileTree :=
  { t with
    nodes := t.nodes.map fun (other, node) => (other, if other = place then change node else node)
    topPermissions := if place = [] then (change t.top).permissions else t.topPermissions }

/-- The name of a location right below a directory. -/
def childName? (directory place : Location) : Option String :=
  match place.getLast? with
  | some name => if place = directory ++ [name] then some name else none
  | none => none

/-- The entries of a directory with their names, in the order in which they are stored. -/
def children (t : FileTree) (directory : Location) : List (String × Node) :=
  t.nodes.filterMap fun (place, node) => (childName? directory place).map fun name => (name, node)

end FileTree

end FtpControl

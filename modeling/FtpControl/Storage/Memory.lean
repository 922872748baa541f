import FtpControl.Storage.Basic
import FtpControl.Text.Bytes

/-!
# A storage in memory

Entries under exact paths, with faults at chosen places, to try out sessions against storages that
fail. The first entry with a path is the one the path names.
-/

namespace FtpControl

/-- A file, directory or link in memory, and what goes wrong with it. -/
structure MemoryEntry where
  path : String
  info : FileInfo
  data : List UInt8 := []
  statFailure : Option Failure := none
  openFailure : Option Failure := none
  listFailure : Option Failure := none
  permissionFailure : Option Failure := none
  /-- The most bytes that one read gives. -/
  grain : Option Nat := none
  /-- Reads stop before this position and fail from it on. -/
  failAt : Option Nat := none
  /-- The fault of a read that fails. -/
  fault : IoFault := .plain .other
  /-- The fault of every move of a handle. -/
  seekFault : Option IoFault := none

/-- The entries, in the order in which they were made. -/
abbrev MemoryStore := List MemoryEntry

/-- A handle on an entry: its position, and the bytes from there on. -/
structure MemoryHandle where
  entry : MemoryEntry
  position : Nat
  rest : List UInt8

namespace MemoryStore

def find? (path : String) (s : MemoryStore) : Option MemoryEntry :=
  List.find? (fun e => e.path == path) s

/-- The failure of a path that names nothing. -/
def missing : Failure := ⟨.notFound, "no such file or directory"⟩

/-- The entry of a path, unless it is to fail. -/
def entry (path : String) (failure : MemoryEntry → Option Failure) (s : MemoryStore) :
    Except Failure MemoryEntry :=
  match s.find? path with
  | none => .error missing
  | some e =>
      match failure e with
      | some f => .error f
      | none => .ok e

/-- The store with the first entry of a path changed. -/
def update (path : String) (change : MemoryEntry → MemoryEntry) : MemoryStore → MemoryStore
  | [] => []
  | e :: es => if e.path = path then change e :: es else e :: update path change es

def stat (path : String) (s : MemoryStore) : Except Failure FileInfo × MemoryStore :=
  ((s.entry path MemoryEntry.statFailure).map MemoryEntry.info, s)

def openAt (path : String) (offset : Nat) (s : MemoryStore) :
    Except Failure MemoryHandle × MemoryStore :=
  ((s.entry path MemoryEntry.openFailure).map fun e => ⟨e, offset, e.data.drop offset⟩, s)

def seek (h : MemoryHandle) (offset : Nat) (s : MemoryStore) :
    Except IoFault Unit × MemoryHandle × MemoryStore :=
  match h.entry.seekFault with
  | some fault => (.error fault, h, s)
  | none => (.ok (), ⟨h.entry, offset, h.entry.data.drop offset⟩, s)

/-- How many bytes one read may give, at most. -/
def allowance (h : MemoryHandle) (most : Nat) : Nat :=
  let most := match h.entry.grain with
    | some g => min most g
    | none => most
  match h.entry.failAt with
  | some p => min most (p - h.position)
  | none => most

def fails (h : MemoryHandle) : Bool :=
  match h.entry.failAt with
  | some p => p ≤ h.position
  | none => false

def read (h : MemoryHandle) (most : Nat) (s : MemoryStore) :
    Except IoFault (List UInt8) × MemoryHandle × MemoryStore :=
  if fails h then (.error h.entry.fault, h, s)
  else
    let bytes := h.rest.take (allowance h most)
    (.ok bytes, ⟨h.entry, h.position + bytes.length, h.rest.drop bytes.length⟩, s)

/-- The entries below a path, in the order in which they were made. -/
def below (path : String) (s : MemoryStore) : List FileInfo :=
  (s.filter fun e => (path ++ "/").isPrefixOf e.path).map MemoryEntry.info

def readDir (path : String) (s : MemoryStore) : Except Failure (List FileInfo) × MemoryStore :=
  ((s.entry path MemoryEntry.listFailure).map fun _ => s.below path, s)

def chmod (path : String) (permissions : Nat) (s : MemoryStore) :
    Except Failure Unit × MemoryStore :=
  match s.entry path MemoryEntry.permissionFailure with
  | .error f => (.error f, s)
  | .ok _ =>
      (.ok (), s.update path fun e => { e with info := { e.info with mode := some permissions } })

def chown (path : String) (s : MemoryStore) : Except Failure Unit × MemoryStore :=
  ((s.entry path MemoryEntry.permissionFailure).map fun _ => (), s)

def baseName (path : String) : String :=
  .ofList (path.toList.reverse.takeWhile (· ≠ '/')).reverse

/-- A link that was made by a request. -/
def linkEntry (target link : String) : MemoryEntry :=
  let data := Text.bytes target
  { path := link
    info := { name := baseName link, kind := .symlink, size := data.length }
    data }

def symlink (target link : String) (s : MemoryStore) : Except Failure Unit × MemoryStore :=
  match s.find? link with
  | some _ => (.error ⟨.backend, "file exists"⟩, s)
  | none => (.ok (), s ++ [linkEntry target link])

/-- The least a storage can do: describe and open. -/
def minimal : Storage MemoryStore MemoryHandle where
  stat := stat
  openFile path _ _ := openAt path 0
  seek := seek
  read := read
  release _ s := s

/-- A storage that can do everything, opening at offsets only if told to. -/
def complete (offsets : Bool) : Storage MemoryStore MemoryHandle :=
  { minimal with
    openAt? := if offsets then some fun path _ offset => openAt path offset else none
    readDir := readDir
    chmod := chmod
    chown := fun path _ _ => chown path
    symlink := symlink }

end MemoryStore

end FtpControl

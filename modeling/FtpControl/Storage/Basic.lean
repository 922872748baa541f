import FtpControl.FileInfo
import FtpControl.IoFault

/-!
# Storages

What a session asks of the storage behind it. A storage has a state, and hands out handles on
opened files. Every request may change the state, whether it succeeds or not.
-/

namespace FtpControl

/-- How a file is opened. -/
structure OpenMode where
  read : Bool := false
  write : Bool := false
  append : Bool := false
  create : Bool := false
  truncate : Bool := false
  deriving DecidableEq, Repr

namespace OpenMode

def readOnly : OpenMode := { read := true }

end OpenMode

/-- A request to a storage or to a handle. -/
inductive Call where
  | stat (path : String)
  | openFile (path : String) (mode : OpenMode) (permissions : Nat)
  | openAt (path : String) (mode : OpenMode) (offset : Nat)
  | readDir (path : String)
  | chmod (path : String) (permissions : Nat)
  | chown (path : String) (user : Nat) (group : Option Nat)
  | symlink (target link : String)
  | seek (offset : Nat)
  | read (most : Nat)
  | release
  deriving DecidableEq, Repr

/-- A storage with states `σ` and handles `κ`. A storage that cannot list directories, change
permissions or owners, or make links says so. -/
structure Storage (σ κ : Type) where
  /-- Describes what a path names. -/
  stat : String → σ → Except Failure FileInfo × σ
  /-- Opens a file at its beginning; a new file gets the given permissions. -/
  openFile : String → OpenMode → Nat → σ → Except Failure κ × σ
  /-- Opens a file at an offset, for storages that offer it. -/
  openAt? : Option (String → OpenMode → Nat → σ → Except Failure κ × σ) := none
  /-- Moves a handle to an offset from the beginning. -/
  seek : κ → Nat → σ → Except IoFault Unit × κ × σ
  /-- Reads some bytes, at most so many; none at the end. -/
  read : κ → Nat → σ → Except IoFault (List UInt8) × κ × σ
  release : κ → σ → σ
  /-- Describes the entries of a directory. -/
  readDir : String → σ → Except Failure (List FileInfo) × σ :=
    fun path s => (.error (.cannotList path), s)
  chmod : String → Nat → σ → Except Failure Unit × σ :=
    fun path _ s => (.error (.chmodUnsupported path), s)
  /-- Sets the owner and perhaps the group. -/
  chown : String → Nat → Option Nat → σ → Except Failure Unit × σ :=
    fun path _ _ s => (.error (.chownUnsupported path), s)
  /-- Makes a symbolic link to a target. -/
  symlink : String → String → σ → Except Failure Unit × σ :=
    fun _ link s => (.error (.symlinkUnsupported link), s)

end FtpControl

import FtpControl.Storage.Basic

/-!
# The journal of a session

Everything that a session does in sight of others, in order: what it asks of the storage, what it
writes to the peer, and what it logs.
-/

namespace FtpControl

/-- How bytes travel on a connection: as they are, or protected by TLS. -/
inductive Protection where
  | clear
  | tls
  deriving DecidableEq, Repr

/-- How grave a log record is. -/
inductive LogLevel where
  | trace
  | debug
  | info
  | warn
  deriving DecidableEq, Repr

/-- One deed of a session. -/
inductive Event where
  | asked (call : Call)
  | wrote (via : Protection) (bytes : List UInt8)
  | logged (level : LogLevel) (text : String)
  deriving DecidableEq, Repr

/-- A storage's state together with what was done so far. -/
structure Ledger (σ : Type) where
  store : σ
  journal : Array Event := #[]

namespace Ledger

variable {σ κ : Type}

def note (l : Ledger σ) (e : Event) : Ledger σ := { l with journal := l.journal.push e }

def log (l : Ledger σ) (level : LogLevel) (text : String) : Ledger σ := l.note (.logged level text)

def ask {α : Type} (l : Ledger σ) (call : Call) (request : σ → α × σ) : α × Ledger σ :=
  let (answer, store) := request l.store
  (answer, { store, journal := l.journal.push (.asked call) })

/-! ## Requests -/

def stat (st : Storage σ κ) (path : String) (l : Ledger σ) : Except Failure FileInfo × Ledger σ :=
  l.ask (.stat path) (st.stat path)

def openFile (st : Storage σ κ) (path : String) (mode : OpenMode) (permissions : Nat)
    (l : Ledger σ) : Except Failure κ × Ledger σ :=
  l.ask (.openFile path mode permissions) (st.openFile path mode permissions)

def readDir (st : Storage σ κ) (path : String) (l : Ledger σ) :
    Except Failure (List FileInfo) × Ledger σ :=
  l.ask (.readDir path) (st.readDir path)

def chmod (st : Storage σ κ) (path : String) (permissions : Nat) (l : Ledger σ) :
    Except Failure Unit × Ledger σ :=
  l.ask (.chmod path permissions) (st.chmod path permissions)

def chown (st : Storage σ κ) (path : String) (user : Nat) (group : Option Nat) (l : Ledger σ) :
    Except Failure Unit × Ledger σ :=
  l.ask (.chown path user group) (st.chown path user group)

def symlink (st : Storage σ κ) (target link : String) (l : Ledger σ) :
    Except Failure Unit × Ledger σ :=
  l.ask (.symlink target link) (st.symlink target link)

def seek (st : Storage σ κ) (handle : κ) (offset : Nat) (l : Ledger σ) :
    (Except IoFault Unit × κ) × Ledger σ :=
  l.ask (.seek offset) fun s =>
    let (answer, handle, s) := st.seek handle offset s
    ((answer, handle), s)

def read (st : Storage σ κ) (handle : κ) (most : Nat) (l : Ledger σ) :
    (Except IoFault (List UInt8) × κ) × Ledger σ :=
  l.ask (.read most) fun s =>
    let (answer, handle, s) := st.read handle most s
    ((answer, handle), s)

def release (st : Storage σ κ) (handle : κ) (l : Ledger σ) : Ledger σ :=
  (l.ask .release fun s => ((), st.release handle s)).2

end Ledger

end FtpControl

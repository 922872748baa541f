import FtpControl.ByteRange
import FtpControl.Digest.Engine
import FtpControl.Journal

/-!
# Digests of stored files

The digest of a range of a file. The file is opened at the start of the range where the storage
offers that, and else opened and moved there; exactly the bytes of the range are read, in portions;
and the handle is given back on every way out.
-/

namespace FtpControl.Checksum

variable {σ κ : Type}

def portion : Nat := 65536

/-- Reads the last `remaining` of `total` bytes into the digest. -/
def stream (st : Storage σ κ) (total remaining : Nat) (handle : κ) (engine : DigestEngine)
    (l : Ledger σ) : Except Failure DigestEngine × κ × Ledger σ :=
  if remaining = 0 then (.ok engine, handle, l)
  else
    let want := min remaining portion
    match l.read st handle want with
    | ((.error fault, handle), l) => (.error fault.toFailure, handle, l)
    | ((.ok bytes, handle), l) =>
        match bytes.take want with
        | [] => (.error (.unexpectedEof total (total - remaining)), handle, l)
        | b :: bs =>
            stream st total (remaining - (bs.length + 1)) handle (engine.update (b :: bs)) l
termination_by remaining
decreasing_by omega

/-- Opens a file for reading at the start of a range. A handle that could not be moved there is
given back. -/
def openRange (st : Storage σ κ) (path : String) (start : Nat) (l : Ledger σ) :
    Except Failure κ × Ledger σ :=
  match st.openAt? with
  | some openAt => l.ask (.openAt path .readOnly start) (openAt path .readOnly start)
  | none =>
      match l.openFile st path .readOnly 0o777 with
      | (.error f, l) => (.error f, l)
      | (.ok handle, l) =>
          if start = 0 then (.ok handle, l)
          else
            match l.seek st handle start with
            | ((.ok (), handle), l) => (.ok handle, l)
            | ((.error fault, handle), l) => (.error fault.toFailure, l.release st handle)

/-- The digest of a range of a file, in lowercase hexadecimal. -/
def ofRange (st : Storage σ κ) (path : String) (algorithm : HashAlgorithm) (range : ByteRange)
    (l : Ledger σ) : Except Failure String × Ledger σ :=
  if range.stop < range.start then (.error (.invalidRange range.start range.stop), l)
  else
    match openRange st path range.start l with
    | (.error f, l) => (.error f, l)
    | (.ok handle, l) =>
        let length := range.stop - range.start
        let (answer, handle, l) := stream st length length handle (.start algorithm) l
        (answer.map DigestEngine.hex, l.release st handle)

end FtpControl.Checksum

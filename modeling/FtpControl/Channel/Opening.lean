import FtpControl.Channel.TlsRecord

/-!
# The opening of a TLS handshake

A server that waits for a client's hello reads records until it has one. It passes over a few
warnings, and it puts a message together from the records over which it is spread. All else spoils
the opening, and so does every message that is complete: a real hello is not taken apart here.
-/

namespace FtpControl

/-- What was read of an opening. -/
structure Opening where
  /-- The bytes of a record that is not whole yet. -/
  unread : List UInt8 := []
  /-- The beginning of a message, taken from records that were whole. -/
  message : List UInt8 := []
  /-- The bytes of those records, headers included. -/
  held : Nat := 0
  /-- How many warnings were passed over. -/
  warnings : Nat := 0
  deriving DecidableEq, Repr

namespace Opening

def warningLimit : Nat := 4

/-- The most bytes in a message, its header not counted, and the number of bytes that are never
held for one. -/
def messageLimit : Nat := 65535

/-- The level of an alert that is only a warning. -/
def warningLevel : UInt8 := 1

/-- A client's hello: its headers, and zeros for the rest. -/
def hello : List UInt8 :=
  [0x16, 0x03, 0x01, 0x00, 0xE7, 0x01, 0x00, 0x00, 0xE3, 0x03, 0x03] ++ List.replicate 225 0

/-- Whether bytes are the beginning of a message: its type, the length of its body in three bytes,
and less than all of its body. -/
def isBegun : List UInt8 → Bool
  | _ :: high :: middle :: low :: body =>
      let length := (high.toNat * 256 + middle.toNat) * 256 + low.toNat
      length ≤ messageLimit && body.length < length
  | _ => true

/-- Whether the next record may be a new beginning. -/
def isClear (o : Opening) : Bool := o.unread = [] && o.message = []

/-- A warning, unless there were too many before it, or it interrupts a message. -/
def warn (body : List UInt8) (o : Opening) : Option Opening :=
  match body with
  | [level, _] =>
      if level = warningLevel ∧ o.message = [] ∧ o.warnings < warningLimit then
        some { o with warnings := o.warnings + 1 }
      else none
  | _ => none

def extend (body : List UInt8) (o : Opening) : Option Opening :=
  if isBegun (o.message ++ body) then
    some { o with
      message := o.message ++ body
      held := o.held + TlsRecord.headerSize + body.length }
  else none

def accept (type : UInt8) (body : List UInt8) (o : Opening) : Option Opening :=
  if type = TlsRecord.handshakeType then o.extend body
  else if type = TlsRecord.alertType then o.warn body
  else none

/-- Reads records from bytes as long as they are whole; none when they spoil the opening. -/
def readRecords (bytes : List UInt8) (o : Opening) : Option Opening :=
  match _h : TlsRecord.ofBytes bytes with
  | .refused => none
  | .pending =>
      if o.message ≠ [] ∧ messageLimit ≤ o.held + bytes.length then none
      else some { o with unread := bytes }
  | .whole type body rest =>
      match o.accept type body with
      | none => none
      | some o => readRecords rest o
termination_by bytes.length
decreasing_by
  have := TlsRecord.length_of_whole ‹_›
  simp only [TlsRecord.headerSize] at this
  omega

def take (bytes : List UInt8) (o : Opening) : Option Opening := o.readRecords (o.unread ++ bytes)

end Opening

end FtpControl

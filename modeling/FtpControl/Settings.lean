import FtpControl.Failure
import FtpControl.Json.Reading

/-! # Settings of a server -/

namespace FtpControl

/-- What an administrator chooses. -/
structure Settings where
  /-- The address the server listens on, as shown in its status. -/
  listenAddr : String := "0.0.0.0:21"
  banner : String := "sorng-ftpd ready"
  disableSite : Bool := false
  enableHash : Bool := false
  disableMlsd : Bool := false
  disableMlst : Bool := false
  disableMfmt : Bool := false
  deriving DecidableEq, Repr

namespace Settings

open Json

/-- Settings from named members; those left out keep their presets, and unknown ones are
ignored. -/
def ofMembers? (members : List (Option String × Value)) : Option Settings := do
  let flag (name : String) : Option Bool := readMember? members name (some false) Value.bool?
  let preset : Settings := {}
  let listenAddr ← readMember? members "listenAddr" (some preset.listenAddr) Value.text?
  let banner ← readMember? members "banner" (some preset.banner) Value.text?
  let disableSite ← flag "disableSite"
  let enableHash ← flag "enableHash"
  let disableMlsd ← flag "disableMlsd"
  let disableMlst ← flag "disableMlst"
  let disableMfmt ← flag "disableMfmt"
  if namesReadable members then
    some { listenAddr, banner, disableSite, enableHash, disableMlsd, disableMlst, disableMfmt }
  else none

/-- Settings from values in the order of the fields; those left out keep their presets. -/
def ofItems? (items : List Value) : Option Settings := do
  let preset : Settings := {}
  let text (i : Nat) (otherwise : String) : Option String :=
    match items[i]? with
    | some v => v.text?
    | none => some otherwise
  let flag (i : Nat) : Option Bool :=
    match items[i]? with
    | some v => v.bool?
    | none => some false
  let listenAddr ← text 0 preset.listenAddr
  let banner ← text 1 preset.banner
  let disableSite ← flag 2
  let enableHash ← flag 3
  let disableMlsd ← flag 4
  let disableMlst ← flag 5
  let disableMfmt ← flag 6
  if items.length ≤ 7 then
    some { listenAddr, banner, disableSite, enableHash, disableMlsd, disableMlst, disableMfmt }
  else none

def ofValue? : Value → Option Settings
  | .object members => ofMembers? members
  | .array items => ofItems? items
  | _ => none

def ofJson (text : String) : Except Failure Settings :=
  match (readDocument? text).bind ofValue? with
  | some settings => .ok settings
  | none => .error ⟨.invalidArgument, "invalid settings"⟩

end Settings

end FtpControl

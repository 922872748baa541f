/-!
# JSON documents

A document as it is written: members keep their order and their repetitions, and numbers keep their
spelling. A string has no text when one of its escapes names half of a surrogate pair alone.
-/

namespace FtpControl.Json

/-- A JSON value. -/
inductive Value where
  | null
  | bool (value : Bool)
  | number (spelling : String)
  | string (text : Option String)
  | array (items : List Value)
  | object (members : List (Option String × Value))

namespace Value

def bool? : Value → Option Bool
  | bool b => some b
  | _ => none

def text? : Value → Option String
  | string text => text
  | _ => none

/-- The value of a number that is spelled with digits alone and lies below `bound`. -/
def natBelow? (bound : Nat) : Value → Option Nat
  | number spelling =>
      if spelling.toList.all Char.isDigit then
        let n := spelling.toList.foldl (fun n c => 10 * n + (c.toNat - '0'.toNat)) 0
        if n < bound then some n else none
      else none
  | _ => none

/-- A reader that also takes `null`, for no value. -/
def orNull {α : Type} (read : Value → Option α) : Value → Option (Option α)
  | null => some none
  | v => (read v).map some

end Value

/-! ## Members -/

def namesReadable (members : List (Option String × Value)) : Bool :=
  members.all fun m => m.1.isSome

/-- Reads the member of a name: given nothing when it is absent, and refused when the name
occurs twice. -/
def readMember? {α : Type} (members : List (Option String × Value)) (name : String)
    (absent : Option α) (read : Value → Option α) : Option α :=
  match members.filter fun m => m.1 == some name with
  | [] => absent
  | [(_, v)] => read v
  | _ => none

end FtpControl.Json

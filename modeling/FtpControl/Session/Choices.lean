import FtpControl.Reply
import FtpControl.ReplyCode
import FtpControl.Session.Profile
import FtpControl.Text.Ascii

/-! # Choices of a client: transfer protection, name, transfer type, digest algorithm -/

namespace FtpControl.Choices

/-- `P` asks for protected transfers, everything else for unprotected ones. -/
def protect (param : String) (profile : Profile) : Reply × Profile :=
  (.message ReplyCode.done "OK", { profile with privateTransfers := param = "P" })

def nameClient (param : String) (profile : Profile) : Reply × Profile :=
  (.message ReplyCode.done "Good to know", { profile with clientName := param })

/-- `I` chooses binary transfers, `A` text; nothing else is understood. -/
def chooseType (param : String) (profile : Profile) : Reply × Profile :=
  if param = "I" then
    (.message ReplyCode.done "Type set to binary", { profile with transferType := .binary })
  else if param = "A" then
    (.message ReplyCode.done "Type set to ASCII", { profile with transferType := .ascii })
  else (.message ReplyCode.notUnderstood "Not understood", profile)

/-- An option and its value: what stands before and after the first space. -/
def optionParts (param : String) : String × Option String :=
  match Text.cut? ' ' param with
  | some (option, value) => (option, some value)
  | none => (param, none)

/-- The digest algorithm that an option newly selects, by its exact name. -/
def selection? (hashing : Bool) (param : String) : Option HashAlgorithm :=
  match optionParts param with
  | (option, some value) =>
      if Text.sameKeyword option "HASH" && hashing then HashAlgorithm.ofName? value else none
  | (_, none) => none

/-- The reply to an option. Without a value, the digest option reports the selection. -/
def optionReply (hashing : Bool) (current : HashAlgorithm) (param : String) : Reply :=
  let (option, value) := optionParts param
  if Text.sameKeyword option "UTF8" then
    .message ReplyCode.done "I'm in UTF8 only anyway"
  else if Text.sameKeyword option "HASH" && hashing then
    match value with
    | none => .message ReplyCode.done current.name
    | some name =>
        match HashAlgorithm.ofName? name with
        | some a => .message ReplyCode.done a.name
        | none =>
            .message ReplyCode.badArguments "Unknown algorithm, current selection not changed"
  else .message ReplyCode.notUnderstood "Don't know this option"

def selectHash (hashing : Bool) (param : String) (profile : Profile) : Profile :=
  match selection? hashing param with
  | some a => { profile with hash := a }
  | none => profile

end FtpControl.Choices

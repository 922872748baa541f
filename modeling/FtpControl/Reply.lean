import FtpControl.Numeral
import FtpControl.Text.Split

/-!
# Replies

A reply is a three-digit code with a message, or a block: a header, body lines that each start with
a space, and a footer. A message of several lines is written as a block as well, so that a client
finds the end of every reply by its code.
-/

namespace FtpControl

/-- What the server answers to a command. -/
inductive Reply where
  /-- A code and a message, which may have several lines. -/
  | message (code : Nat) (text : String)
  /-- A code, a header, body lines and a footer. -/
  | block (code : Nat) (header : String) (body : List String) (footer : String)
  deriving DecidableEq, Repr

namespace Reply

def codeText (code : Nat) : String := Numeral.decimal 3 code

/-- The line that is a reply of its own or ends a block. -/
def line (code : Nat) (text : String) : String := codeText code ++ " " ++ text ++ "\r\n"

def opening (code : Nat) (text : String) : String := codeText code ++ "-" ++ text ++ "\r\n"

def inner (text : String) : String := " " ++ text ++ "\r\n"

/-- The lines after the first: all but the last stand inside the block. -/
def closing (code : Nat) : List String → String
  | [] => ""
  | [last] => line code last
  | text :: rest => inner text ++ closing code rest

def bodyText : List String → String
  | [] => ""
  | text :: rest => inner text ++ bodyText rest

/-- A message in the form in which it is sent. -/
def messageText (code : Nat) (text : String) : String :=
  match Text.lines text with
  | [] => line code ""
  | [only] => line code only
  | first :: rest => opening code first ++ closing code rest

/-- A block in the form in which it is sent. Its texts are taken as they are. -/
def blockText (code : Nat) (header : String) (body : List String) (footer : String) : String :=
  opening code header ++ bodyText body ++ line code footer

/-- A reply in the form in which it is sent. -/
def render : Reply → String
  | message code text => messageText code text
  | block code header body footer => blockText code header body footer

def code : Reply → Nat
  | message code _ => code
  | block code _ _ _ => code

end Reply

end FtpControl

import FtpControl.Digest.Algorithm
import FtpControl.Text.Ascii

/-! # The verbs that a session understands -/

namespace FtpControl

/-- A verb, or a word that is none. -/
inductive Verb where
  | auth
  | prot
  | pbsz
  | feat
  | opts
  | syst
  | stat
  | site
  | noop
  | clnt
  | type
  | quit
  | hash
  /-- A verb that asks for one digest algorithm. -/
  | legacy (a : HashAlgorithm)
  | unknown
  deriving DecidableEq, Repr

namespace Verb

def basic : List (String × Verb) :=
  [("AUTH", auth), ("PROT", prot), ("PBSZ", pbsz), ("FEAT", feat), ("OPTS", opts),
   ("SYST", syst), ("STAT", stat), ("SITE", site), ("NOOP", noop), ("CLNT", clnt),
   ("TYPE", type), ("QUIT", quit)]

/-- The verbs that are understood while digests are offered. -/
def hashing : List (String × Verb) :=
  ("HASH", hash) :: HashAlgorithm.legacyVerbs.map fun (name, a) => (name, legacy a)

def table (enableHash : Bool) : List (String × Verb) :=
  if enableHash then basic ++ hashing else basic

/-- The verb that a word in upper case means. -/
def ofUpper (enableHash : Bool) (word : String) : Verb :=
  ((table enableHash).lookup word).getD unknown

/-- The verb that a word means, in any case. -/
def ofText (enableHash : Bool) (word : String) : Verb := ofUpper enableHash (Text.upper word)

end Verb

end FtpControl

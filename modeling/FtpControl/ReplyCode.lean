/-! # The codes of replies -/

namespace FtpControl.ReplyCode

abbrev done : Nat := 200
abbrev systemStatus : Nat := 211
abbrev fileStatus : Nat := 213
abbrev systemType : Nat := 215
abbrev ready : Nat := 220
abbrev closing : Nat := 221
abbrev authAccepted : Nat := 234
abbrev fileDone : Nat := 250
abbrev notUnderstood : Nat := 500
abbrev badArguments : Nat := 501
abbrev badSequence : Nat := 503
abbrev notTaken : Nat := 550
abbrev notAllowed : Nat := 553

end FtpControl.ReplyCode

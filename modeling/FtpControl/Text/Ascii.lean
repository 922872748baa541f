/-! # Letter case of ASCII keywords -/

namespace FtpControl.Text

/-- Upper case for the ASCII letters; every other character stays. -/
def upper (s : String) : String := .ofList (s.toList.map Char.toUpper)

@[simp] theorem toList_upper (s : String) : (upper s).toList = s.toList.map Char.toUpper := by
  simp [upper]

/-- Equality up to the case of ASCII letters. -/
def sameKeyword (a b : String) : Bool := upper a == upper b

end FtpControl.Text

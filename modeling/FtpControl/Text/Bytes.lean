/-! # Texts as bytes -/

namespace FtpControl.Text

def bytes (s : String) : List UInt8 := s.toUTF8.data.toList

@[simp] theorem bytes_empty : bytes "" = [] := rfl

@[simp] theorem bytes_append (s t : String) : bytes (s ++ t) = bytes s ++ bytes t := by
  simp [bytes]

end FtpControl.Text

import FtpControl.Channel
import FtpControl.Proofs.Session.Answers
import FtpControl.Proofs.Text.LetterCase

/-!
# Keywords in any case

A command takes its verb from the bytes before the first space of its line, in upper case, and its
parameter from those behind it as they were sent. Lines that are the same but for the case of their
keywords have the same answer, to the word.
-/

namespace FtpControl

open Text (SameLetters SameButWord SameRequest)

/-! ## Lines taken apart -/

namespace Channel

theorem space_notMem {bytes : List UInt8} (hspace : 0x20 ∉ bytes) : ' ' ∉ Text.decodeChars bytes :=
  Text.notMem_decodeChars (a := 0x20) (by decide) (by decide) hspace

theorem cut?_lineText {word : List UInt8} (hspace : 0x20 ∉ word) (rest : List UInt8) :
    Text.cut? ' ' (lineText (word ++ 0x20 :: rest)) =
      some (Text.ofBytesLossy word, lineText rest) := by
  refine Text.cut?_eq_some_iff.mpr ⟨?_, ?_⟩
  · rw [Text.ofBytesLossy, String.toList_ofList]
    exact space_notMem hspace
  · simp only [lineText, Text.trimLineEnd, Text.ofBytesLossy, String.toList_ofList]
    rw [Text.decodeChars_append_cons (by decide)]
    exact Text.trimChars_append_cons (by decide) _ _

theorem cut?_lineText_of_notMem {line : List UInt8} (hspace : 0x20 ∉ line) :
    Text.cut? ' ' (lineText line) = none := by
  apply Text.cut?_of_notMem
  rw [lineText, Text.trimLineEnd, Text.ofBytesLossy, String.toList_ofList, String.toList_ofList]
  exact fun hmem => space_notMem hspace (Text.mem_of_mem_trimChars hmem)

theorem upper_lineText {p q : List UInt8} (h : SameLetters p q) :
    Text.upper (lineText p) = Text.upper (lineText q) := by
  rw [lineText, lineText, Text.upper_trimLineEnd, Text.upper_trimLineEnd, h.upper_eq]

theorem trimLineEnd_lineText (line : List UInt8) :
    Text.trimLineEnd (lineText line) = lineText line := by
  simp only [lineText, Text.trimLineEnd, String.toList_ofList, Text.trimChars_trimChars]

end Channel

namespace Command

/-- Whether a command is what a line carries: the text before the first space in upper case, and
the text behind it as it was sent, but for the end of the line. -/
inductive Carries (line : List UInt8) : Command → Prop where
  | alone (hspace : 0x20 ∉ line) : Carries line ⟨Text.upper (Channel.lineText line), ""⟩
  | followed {word rest} (hline : line = word ++ 0x20 :: rest) (hspace : 0x20 ∉ word) :
      Carries line ⟨Text.upper (Text.ofBytesLossy word), Channel.lineText rest⟩

theorem ofLine_alone {line : List UInt8} (hspace : 0x20 ∉ line) :
    ofLine (Channel.lineText line) = ⟨Text.upper (Channel.lineText line), ""⟩ := by
  simp only [ofLine, Channel.trimLineEnd_lineText, Channel.cut?_lineText_of_notMem hspace]

theorem ofLine_followed {word : List UInt8} (hspace : 0x20 ∉ word) (rest : List UInt8) :
    ofLine (Channel.lineText (word ++ 0x20 :: rest)) =
      ⟨Text.upper (Text.ofBytesLossy word), Channel.lineText rest⟩ := by
  simp only [ofLine, Channel.trimLineEnd_lineText, Channel.cut?_lineText hspace]

theorem carries_ofLine (line : List UInt8) : Carries line (ofLine (Channel.lineText line)) := by
  by_cases hspace : 0x20 ∈ line
  · obtain ⟨word, rest, rfl, hword⟩ := List.eq_append_cons_of_mem hspace
    rw [ofLine_followed hword]
    exact .followed rfl hword
  · rw [ofLine_alone hspace]
    exact .alone hspace

end Command

/-! ## Parameters with a keyword -/

/-- Whether two parameters are the same but for the case of letters in their first word. -/
inductive Text.SameButKeyword (x y : String) : Prop where
  | alone (hx : cut? ' ' x = none) (hy : cut? ' ' y = none) (h : upper x = upper y)
  | followed {word word' rest} (hx : cut? ' ' x = some (word, rest))
      (hy : cut? ' ' y = some (word', rest)) (h : upper word = upper word')

theorem Channel.sameButKeyword_lineText {p q : List UInt8} (h : SameButWord p q) :
    Text.SameButKeyword (lineText p) (lineText q) := by
  cases h with
  | alone hspace h =>
      exact .alone (cut?_lineText_of_notMem hspace)
        (cut?_lineText_of_notMem (h.notMem (by decide) hspace)) (upper_lineText h)
  | followed hspace h rest =>
      exact .followed (cut?_lineText hspace rest)
        (cut?_lineText (h.notMem (by decide) hspace) rest) h.upper_eq

theorem Text.sameKeyword_eq {word word' : String} (h : upper word' = upper word) (name : String) :
    sameKeyword word' name = sameKeyword word name := by
  rw [sameKeyword, sameKeyword, h]

namespace Text.SameButKeyword

variable {x y : String}

theorem optionParts (h : SameButKeyword x y) :
    (Choices.optionParts y).2 = (Choices.optionParts x).2 ∧
      upper (Choices.optionParts y).1 = upper (Choices.optionParts x).1 := by
  cases h with
  | alone hx hy h => simp only [Choices.optionParts, hx, hy, h, and_self]
  | followed hx hy h => simp only [Choices.optionParts, hx, hy, h, and_self]

theorem selection?_eq (h : SameButKeyword x y) (hashing : Bool) :
    Choices.selection? hashing y = Choices.selection? hashing x := by
  obtain ⟨hvalue, hword⟩ := h.optionParts
  rw [Choices.selection?, Choices.selection?]
  generalize Choices.optionParts x = parts, Choices.optionParts y = parts' at hvalue hword ⊢
  obtain ⟨option, value⟩ := parts
  obtain ⟨option', value'⟩ := parts'
  obtain rfl : value' = value := hvalue
  cases value' with
  | none => rfl
  | some value => simp only [sameKeyword_eq hword]

theorem optionReply_eq (h : SameButKeyword x y) (hashing : Bool) (current : HashAlgorithm) :
    Choices.optionReply hashing current y = Choices.optionReply hashing current x := by
  obtain ⟨hvalue, hword⟩ := h.optionParts
  rw [Choices.optionReply, Choices.optionReply]
  generalize Choices.optionParts x = parts, Choices.optionParts y = parts' at hvalue hword ⊢
  obtain ⟨option, value⟩ := parts
  obtain ⟨option', value'⟩ := parts'
  obtain rfl : value' = value := hvalue
  simp only [sameKeyword_eq hword]

theorem ofParam_eq (h : SameButKeyword x y) : SiteRequest.ofParam y = SiteRequest.ofParam x := by
  cases h with
  | alone hx hy => simp only [SiteRequest.ofParam, hx, hy]
  | followed hx hy h =>
      simp only [SiteRequest.ofParam, hx, hy, SiteRequest.Keyword.ofText?, sameKeyword, h]

end Text.SameButKeyword

/-! ## Answers -/

namespace Answer

variable {σ κ : Type} (host : Host σ κ)

/-- Where a keyword is looked for, its case makes no difference. -/
theorem toCommand_of_keyword {verb : String} (hverb : verb ∈ ["OPTS", "SITE"]) {x y : String}
    (h : Text.SameButKeyword x y) (secured : Bool) (profile : Profile) (l : Ledger σ) :
    toCommand host ⟨verb, y⟩ secured profile l = toCommand host ⟨verb, x⟩ secured profile l := by
  simp only [List.mem_cons, List.not_mem_nil, or_false] at hverb
  rcases hverb with rfl | rfl
  · have hopts : Verb.ofText host.settings.enableHash "OPTS" = .opts :=
      (Verb.ofText_eq_basic_iff (show ("OPTS", .opts) ∈ Verb.basic by decide) _ _).mpr (by decide)
    simp only [toCommand, hopts, toOption, h.selection?_eq, h.optionReply_eq, Choices.selectHash]
  · have hsite : Verb.ofText host.settings.enableHash "SITE" = .site :=
      (Verb.ofText_eq_basic_iff (show ("SITE", .site) ∈ Verb.basic by decide) _ _).mpr (by decide)
    simp only [toCommand, hsite, SiteRequest.respond, h.ofParam_eq]

/-- Lines that ask for the same have the same answer. -/
theorem toCommand_eq {p q : List UInt8} (h : SameRequest p q) (secured : Bool)
    (profile : Profile) (l : Ledger σ) :
    toCommand host (Command.ofLine (Channel.lineText q)) secured profile l =
      toCommand host (Command.ofLine (Channel.lineText p)) secured profile l := by
  cases h with
  | verb h =>
      cases h with
      | alone hspace h =>
          rw [Command.ofLine_alone hspace, Command.ofLine_alone (h.notMem (by decide) hspace),
            Channel.upper_lineText h]
      | followed hspace h rest =>
          rw [Command.ofLine_followed hspace,
            Command.ofLine_followed (h.notMem (by decide) hspace), h.upper_eq]
  | keyword hverb hspace hword h =>
      rw [Command.ofLine_followed hspace,
        Command.ofLine_followed (hword.notMem (by decide) hspace), ← hword.upper_eq]
      exact toCommand_of_keyword host hverb (Channel.sameButKeyword_lineText h) secured profile l

end Answer

end FtpControl

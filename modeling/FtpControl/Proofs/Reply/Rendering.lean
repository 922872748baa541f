import FtpControl.Proofs.Reply.Reading
import FtpControl.Proofs.Text.Numerals

/-!
# Replies as they are written

A message is read as one reply, whatever its text. A block is one if its header and footer have one
line each, and every further line of a text in its body starts with a space.
-/

namespace FtpControl

namespace Text

/-- Whether every line of a text but the first starts with a space. -/
def isIndented (s : String) : Bool := followed '\n' ' ' s.toList

def IsSingle (s : String) : Prop := '\n' ∉ s.toList

instance (s : String) : Decidable (IsSingle s) := inferInstanceAs (Decidable ('\n' ∉ s.toList))

theorem isIndented_of_isSingle {s : String} (h : IsSingle s) : isIndented s = true := by
  rw [isIndented, ← List.append_nil s.toList, followed_append_of_notMem h]
  rfl

theorem isIndented_append {s : String} (h : IsSingle s) (t : String) :
    isIndented (s ++ t) = isIndented t := by
  rw [isIndented, String.toList_append, followed_append_of_notMem h]
  rfl

theorem IsSingle.append {s t : String} (hs : IsSingle s) (ht : IsSingle t) :
    IsSingle (s ++ t) := by
  simpa [IsSingle] using ⟨hs, ht⟩

theorem notMem_of_mem_lineChars {cs line : List Char} (h : line ∈ lineChars cs) :
    '\n' ∉ line := by
  fun_induction lineChars generalizing line with
  | case1 => simp at h
  | case2 cs ih =>
      rw [List.mem_cons] at h
      rcases h with rfl | h
      · exact List.not_mem_nil
      · exact ih h
  | case3 cs ih =>
      rw [List.mem_cons] at h
      rcases h with rfl | h
      · exact List.not_mem_nil
      · exact ih h
  | case4 c cs hc _ hcs ih =>
      rw [List.mem_singleton] at h
      subst h
      simpa [eq_comm] using hc
  | case5 c cs hc _ first lines hcs ih =>
      rw [List.mem_cons] at h
      rcases h with rfl | h
      · have hfirst := ih (hcs ▸ List.mem_cons_self)
        simpa [eq_comm, hfirst] using hc
      · exact ih (hcs ▸ List.mem_cons_of_mem first h)

theorem isSingle_of_mem_lines {s line : String} (h : line ∈ lines s) : IsSingle line := by
  obtain ⟨cs, hcs, rfl⟩ := List.mem_map.mp h
  rw [IsSingle, String.toList_ofList]
  exact notMem_of_mem_lineChars hcs

end Text

namespace Numeral

/-- A code below a thousand is written with three digits. -/
theorem toList_decimal_three {code : Nat} (h : code < 1000) :
    ∃ x y z, (decimal 3 code).toList = [x, y, z] ∧ x.isDigit = true ∧ y.isDigit = true ∧
      z.isDigit = true := by
  have hdigit : ∀ c ∈ (decimal 3 code).toList, c.isDigit = true := isDigit_of_mem_decimal
  have hthree : (decimal 3 code).toList.length = 3 := length_decimal (by decide) h
  match hcs : (decimal 3 code).toList, hthree with
  | [x, y, z], _ =>
      rw [hcs] at hdigit
      exact ⟨x, y, z, rfl, hdigit x (by simp), hdigit y (by simp), hdigit z (by simp)⟩

end Numeral

/-- A digit is one byte, and is a digit on the wire. -/
theorem Wire.isDigit_of_isDigit {c : Char} (h : c.isDigit = true) :
    String.utf8EncodeChar c = [UInt8.ofNat c.toNat] ∧
      isDigit (UInt8.ofNat c.toNat) = true := by
  have hbounds : 48 ≤ c.toNat ∧ c.toNat ≤ 57 := by
    simpa [Char.isDigit, UInt32.le_iff_toNat_le] using h
  refine ⟨Text.encodeChar_of_ascii (by omega), ?_⟩
  have hbyte : (UInt8.ofNat c.toNat).toNat = c.toNat := by
    rw [UInt8.toNat_ofNat']
    omega
  simp only [isDigit, UInt8.le_iff_toNat_le, hbyte, Bool.and_eq_true, decide_eq_true_eq]
  exact hbounds

namespace Reply

open Text Wire

/-! ## Lines -/

/-- A line with a code and a mark, without its line feed. -/
def stem (code : Nat) (mark : Char) (text : String) : List Char :=
  (codeText code).toList ++ mark :: (text.toList ++ ['\r'])

theorem toList_line (code : Nat) (text : String) :
    (line code text).toList = stem code ' ' text ++ ['\n'] := by
  simp [line, stem]

theorem toList_opening (code : Nat) (text : String) :
    (opening code text).toList = stem code '-' text ++ ['\n'] := by
  simp [opening, stem]

theorem toList_inner (text : String) :
    (inner text).toList = ' ' :: (text.toList ++ ['\r']) ++ ['\n'] := by
  simp [inner]

variable {code : Nat}

theorem encode_codeText (hcode : code < 1000) :
    ∃ a b c, encode (codeText code).toList = [a, b, c] ∧ isDigit a = true ∧ isDigit b = true ∧
      isDigit c = true := by
  obtain ⟨x, y, z, hcs, hx, hy, hz⟩ := Numeral.toList_decimal_three hcode
  obtain ⟨hx, ha⟩ := isDigit_of_isDigit hx
  obtain ⟨hy, hb⟩ := isDigit_of_isDigit hy
  obtain ⟨hz, hc⟩ := isDigit_of_isDigit hz
  exact ⟨_, _, _, by simp [codeText, hcs, hx, hy, hz], ha, hb, hc⟩

theorem notMem_stem (hcode : code < 1000) {mark : Char} (hmark : mark ≠ '\n') {text : String}
    (h : IsSingle text) : '\n' ∉ stem code mark text := by
  obtain ⟨x, y, z, hcs, hx, hy, hz⟩ := Numeral.toList_decimal_three hcode
  have hdigit : ∀ c : Char, c.isDigit = true → '\n' ≠ c := by
    rintro c hc rfl
    simp at hc
  rw [IsSingle] at h
  simp [stem, codeText, hcs, hdigit x hx, hdigit y hy, hdigit z hz, hmark.symm, h]

theorem encode_stem {mark : Char} (hmark : mark.toNat < 128) (code : Nat) (text : String) :
    encode (stem code mark text ++ ['\n']) =
      encode (codeText code).toList ++
        UInt8.ofNat mark.toNat :: encode (text.toList ++ ['\r'] ++ ['\n']) := by
  simp [stem, encodeChar_of_ascii hmark]

/-- The code of a line is read off its front, then its mark, and then its text. -/
theorem code?_stem (hcode : code < 1000) {mark : Char} (hmark : mark.toNat < 128)
    (text : String) :
    code? (encode (stem code mark text ++ ['\n'])) =
      some (encode (codeText code).toList,
        UInt8.ofNat mark.toNat :: encode (text.toList ++ ['\r'] ++ ['\n'])) := by
  obtain ⟨a, b, c, habc, ha, hb, hc⟩ := encode_codeText hcode
  rw [encode_stem hmark, habc]
  simp [code?, ha, hb, hc]

theorem closes_stem (hcode : code < 1000) (text : String) :
    closes (encode (codeText code).toList) (encode (stem code ' ' text ++ ['\n'])) = true := by
  obtain ⟨a, b, c, habc, -⟩ := encode_codeText hcode
  rw [encode_stem (by decide), habc]
  simp [closes, List.isPrefixOf]
  rfl

/-! ## Blocks -/

/-- The lines of a text inside a block. -/
def innerLines (text : String) : List (List Char) :=
  (cutAfter '\n' (' ' :: (text.toList ++ ['\r']) ++ ['\n'])).1

/-- The lines of a text inside a block start with a space exactly if the text is indented. -/
theorem isInner_innerLines (text : String) :
    ((innerLines text).map encode).all isInner = isIndented text := by
  have hinner : ∀ line : List Char, isInner (encode line) = true ↔ line.head? = some ' ' := by
    intro line
    rw [isInner, decide_eq_true_eq]
    exact head?_encode (show ' '.toNat < 128 by decide) line
  rw [Bool.eq_iff_iff, isIndented, List.all_map, List.all_eq_true,
    ← followed_append_singleton (b := '\r') (by decide) (by decide),
    ← heads_cutAfter_iff (by decide)]
  simp only [Function.comp, hinner]
  rfl

theorem cutAfter_bodyText (body : List String) (cs : List Char) :
    cutAfter '\n' ((bodyText body).toList ++ cs) =
      (body.flatMap innerLines ++ (cutAfter '\n' cs).1, (cutAfter '\n' cs).2) := by
  induction body with
  | nil => simp [bodyText]
  | cons text body ih =>
      rw [bodyText, String.toList_append, toList_inner, List.append_assoc, List.append_assoc,
        List.singleton_append, cutAfter_append_sep, ih]
      simp [innerLines]

theorem cutAfter_blockText (hcode : code < 1000) {header footer : String}
    (hheader : IsSingle header) (hfooter : IsSingle footer) (body : List String) :
    cutAfter '\n' (blockText code header body footer).toList =
      ((stem code '-' header ++ ['\n']) ::
        (body.flatMap innerLines ++ [stem code ' ' footer ++ ['\n']]), []) := by
  rw [blockText, String.toList_append, String.toList_append, toList_opening, toList_line,
    List.append_assoc, List.append_assoc, List.singleton_append,
    cutAfter_append_cons (notMem_stem hcode (by decide) hheader), cutAfter_bodyText,
    cutAfter_append_cons (notMem_stem hcode (by decide) hfooter)]
  rfl

/-- A block is read as one reply exactly if the texts in its body are indented. -/
theorem isOneReply_blockText (hcode : code < 1000) {header footer : String}
    (hheader : IsSingle header) (hfooter : IsSingle footer) (body : List String) :
    isOneReply (Text.bytes (blockText code header body footer)) = body.all isIndented := by
  obtain ⟨a, b, c, habc, ha, -⟩ := encode_codeText hcode
  have hcloses : ∀ line, isInner line = true →
      closes (encode (codeText code).toList) line = false := by
    intro line hline
    rw [habc]
    exact closes_of_isInner ha hline
  have hopen := code?_stem hcode (show '-'.toNat < 128 by decide) header
  have hcut : cutAfter Wire.lineFeed (Text.bytes (blockText code header body footer)) =
      (encode (stem code '-' header ++ ['\n']) ::
        ((body.flatMap innerLines).map encode ++ [encode (stem code ' ' footer ++ ['\n'])]),
        []) := by
    rw [bytes_eq_encode, show Wire.lineFeed = UInt8.ofNat '\n'.toNat from rfl,
      cutAfter_encode (by decide), cutAfter_blockText hcode hheader hfooter]
    simp
  have hread : isAlone (inside? (encode (codeText code).toList)
      ((body.flatMap innerLines).map encode ++ [encode (stem code ' ' footer ++ ['\n'])])) =
        body.all isIndented := by
    rw [isAlone_inside hcloses (closes_stem hcode footer), List.map_flatMap, List.all_flatMap]
    simp only [isInner_innerLines]
  rw [isOneReply, hcut, reply?, hopen]
  simp only [decide_true, Bool.and_true]
  exact hread

/-! ## Messages -/

theorem isOneReply_line (hcode : code < 1000) {text : String} (htext : IsSingle text) :
    isOneReply (Text.bytes (line code text)) = true := by
  have hopen := code?_stem hcode (show ' '.toNat < 128 by decide) text
  have hcut : cutAfter Wire.lineFeed (Text.bytes (line code text)) =
      ([encode (stem code ' ' text ++ ['\n'])], []) := by
    rw [bytes_eq_encode, show Wire.lineFeed = UInt8.ofNat '\n'.toNat from rfl,
      cutAfter_encode (by decide), toList_line,
      cutAfter_append_cons (notMem_stem hcode (by decide) htext)]
    rfl
  rw [isOneReply, hcut, reply?, hopen]
  rfl

theorem closing_append (code : Nat) (texts : List String) (last : String) :
    closing code (texts ++ [last]) = bodyText texts ++ line code last := by
  induction texts with
  | nil => simp [closing, bodyText]
  | cons text texts ih =>
      have hne : ∃ next rest, texts ++ [last] = next :: rest := by
        cases texts with
        | nil => exact ⟨_, _, rfl⟩
        | cons next rest => exact ⟨_, _, rfl⟩
      obtain ⟨next, rest, hcons⟩ := hne
      rw [List.cons_append, hcons, closing, ← hcons, ih, bodyText, String.append_assoc]
      simp

/-- A message of several lines is written as a block of them. -/
theorem opening_append_closing {first : String} {rest : List String} (hrest : rest ≠ []) :
    opening code first ++ closing code rest =
      blockText code first rest.dropLast (rest.getLast hrest) := by
  rw [blockText, String.append_assoc, ← closing_append, List.dropLast_concat_getLast]

/-- A message is one reply, whatever its text. -/
theorem isOneReply_messageText (hcode : code < 1000) (text : String) :
    isOneReply (Text.bytes (messageText code text)) = true := by
  -- A text of several lines is written as a block of them.
  have hsingle : ∀ line ∈ lines text, IsSingle line := fun _ => isSingle_of_mem_lines
  unfold messageText
  split
  · exact isOneReply_line hcode List.not_mem_nil
  · next only hlines => exact isOneReply_line hcode (hsingle only (by simp [hlines]))
  · next first rest hrest hlines =>
      have hfirst : IsSingle first := hsingle first (by simp [hlines])
      have hlast : IsSingle (rest.getLast hrest) :=
        hsingle _ (by simp [hlines, List.getLast_mem hrest])
      rw [opening_append_closing hrest, isOneReply_blockText hcode hfirst hlast, List.all_eq_true]
      intro line hline
      have hmem : line ∈ rest := List.dropLast_subset rest hline
      exact isIndented_of_isSingle (hsingle line (by simp [hlines, hmem]))

/-! ## Replies -/

/-- The texts that a reply shows as they are. -/
def shown : Reply → List String
  | message .. => []
  | block _ _ body _ => body

/-- Whether a reply has a code of three digits, and header and footer of one line each. -/
inductive WellFramed : Reply → Prop where
  | message {code text} (hcode : code < 1000) : WellFramed (.message code text)
  | block {code header body footer} (hcode : code < 1000) (hheader : IsSingle header)
      (hfooter : IsSingle footer) : WellFramed (.block code header body footer)

/-- A reply is read as one exactly if the texts are indented that it shows as they are. -/
theorem WellFramed.isOneReply_render {r : Reply} (h : r.WellFramed) :
    isOneReply (Text.bytes r.render) = r.shown.all isIndented := by
  cases h with
  | message hcode => exact isOneReply_messageText hcode _
  | block hcode hheader hfooter => exact isOneReply_blockText hcode hheader hfooter _

end Reply

end FtpControl

import FtpControl.Proofs.Reply.Rendering
import Mathlib.Data.List.Basic

/-!
# Replies one after the other

A client that reads replies line by line gets back what was sent: as many replies, in their order,
each with its code and its lines. No line inside a block is taken for its end.
-/

namespace FtpControl

/-! ## The lines of a text -/

namespace Text

/-- A text as its lines: each goes up to a line feed, which takes one carriage return before it
along, and what follows the last line feed is one more line, unless it is empty. -/
inductive HasLines : List Char → List (List Char) → Prop where
  | nil : HasLines [] []
  | last {line} (hne : line ≠ []) (hline : '\n' ∉ line) : HasLines line [line]
  | feed {line rest lines} (hline : '\n' ∉ line) (hbare : line.getLast? ≠ some '\r')
      (h : HasLines rest lines) : HasLines (line ++ '\n' :: rest) (line :: lines)
  | returned {line rest lines} (hline : '\n' ∉ line) (h : HasLines rest lines) :
      HasLines (line ++ '\r' :: '\n' :: rest) (line :: lines)

/-- A character in front of a text is in front of its first line, unless it is or starts an end of
a line. -/
theorem HasLines.cons {c : Char} {cs line : List Char} {lines : List (List Char)}
    (hfeed : c ≠ '\n') (hreturn : ∀ rest, c = '\r' → cs ≠ '\n' :: rest)
    (h : HasLines cs (line :: lines)) : HasLines (c :: cs) ((c :: line) :: lines) := by
  have hfree : ∀ {front : List Char}, '\n' ∉ front → '\n' ∉ c :: front := by
    intro front hfront
    simpa [hfeed.symm] using hfront
  cases h with
  | last _ hline => exact .last (List.cons_ne_nil c _) (hfree hline)
  | @feed _ rest _ hline hbare h =>
      refine .feed (hfree hline) ?_ h
      cases line with
      | nil =>
          intro hlast
          exact hreturn rest (by simpa using hlast) rfl
      | cons d line => simpa using hbare
  | returned hline h => exact .returned (hfree hline) h

theorem hasLines_lineChars (cs : List Char) : HasLines cs (lineChars cs) := by
  fun_induction lineChars with
  | case1 => exact .nil
  | case2 cs ih =>
      rw [← List.nil_append ('\n' :: cs)]
      exact .feed List.not_mem_nil (by simp) ih
  | case3 cs ih =>
      rw [← List.nil_append ('\r' :: '\n' :: cs)]
      exact .returned List.not_mem_nil ih
  | case4 c cs hfeed hreturn hnone ih =>
      rw [hnone] at ih
      cases ih
      exact .last (List.cons_ne_nil c _) (by simpa [eq_comm] using hfeed)
  | case5 c cs hfeed hreturn line lines hlines ih =>
      rw [hlines] at ih
      exact ih.cons hfeed hreturn

end Text

/-! ## Reading replies -/

namespace Wire

open Text

/-- A reply as a client has read it. -/
structure Received where
  code : Nat
  lines : List String
  deriving DecidableEq, Repr

/-- The number that a code stands for. -/
def number (code : List UInt8) : Nat := code.foldl (fun n b => 10 * n + (b.toNat - 0x30)) 0

/-- The text that stands in a line before the line end. -/
def content? (line : List UInt8) : Option String :=
  (line.dropSuffix? [0x0D, lineFeed]).bind fun bytes => String.fromUTF8? ⟨bytes.toArray⟩

/-- The text of a line inside a block, without the space in front. -/
def innerContent? (line : List UInt8) : Option String :=
  content? (if isInner line then line.tail else line)

/-- The replies that lines spell, read from the front. A block that is open has its code and the
lines read so far. -/
def replies? : Option (List UInt8 × List String) → List (List UInt8) → Option (List Received)
  | none, [] => some []
  | some _, [] => none
  | none, line :: lines =>
      match code? line with
      | some (code, mark :: text) => do
          let text ← content? text
          if mark = space then return ⟨number code, [text]⟩ :: (← replies? none lines)
          else if mark = hyphen then replies? (some (code, [text])) lines
          else none
      | _ => none
  | some (code, texts), line :: lines => do
      if closes code line then
        let last ← content? (line.drop (code.length + 1))
        return ⟨number code, texts ++ [last]⟩ :: (← replies? none lines)
      else replies? (some (code, texts ++ [← innerContent? line])) lines

/-- The replies that bytes are, if they are replies to the last byte. -/
def received? (bytes : List UInt8) : Option (List Received) :=
  if (cutAfter lineFeed bytes).2 = [] then replies? none (cutAfter lineFeed bytes).1
  else none

/-! ## Reading what stands in a line -/

theorem content?_encode (text : String) :
    content? (encode (text.toList ++ ['\r'] ++ ['\n'])) = some text := by
  have hline : encode (text.toList ++ ['\r'] ++ ['\n']) = bytes text ++ [0x0D, lineFeed] := by
    rw [bytes_eq_encode]
    simp [encodeChar_of_ascii (show '\r'.toNat < 128 by decide),
      encodeChar_of_ascii (show '\n'.toNat < 128 by decide)]
    rfl
  have hdrop : (bytes text ++ [0x0D, lineFeed]).dropSuffix? [0x0D, lineFeed] =
      some (bytes text) := List.dropSuffix?_eq_some_iff.mpr ⟨_, rfl, by decide⟩
  rw [content?, hline, hdrop, Option.bind_some]
  simp [bytes, String.fromUTF8?, text.isValidUTF8, String.fromUTF8]

theorem number_encode {cs : List Char} (h : ∀ c ∈ cs, c.isDigit = true) :
    number (encode cs) = Nat.ofDigitChars 10 cs 0 := by
  have hfold : ∀ n, (encode cs).foldl (fun n b => 10 * n + (b.toNat - 0x30)) n =
      Nat.ofDigitChars 10 cs n := by
    induction cs with
    | nil => intro n; rfl
    | cons c cs ih =>
        intro n
        rw [List.forall_mem_cons] at h
        have hbyte : (UInt8.ofNat c.toNat).toNat = c.toNat := by
          have hbounds : 48 ≤ c.toNat ∧ c.toNat ≤ 57 := by
            simpa [Char.isDigit, UInt32.le_iff_toNat_le] using h.1
          rw [UInt8.toNat_ofNat']
          omega
        rw [encode_cons, (isDigit_of_isDigit h.1).1, List.singleton_append, List.foldl_cons,
          ih h.2, hbyte]
        rfl
  exact hfold 0

end Wire

namespace Reply

open Text Wire

variable {code : Nat}

theorem number_codeText (code : Nat) : number (encode (codeText code).toList) = code := by
  rw [codeText, number_encode Numeral.isDigit_of_mem_decimal]
  exact Numeral.ofDigitChars_decimal 3 code

/-- A line inside a block never closes it, whatever its text. -/
theorem closes_inner (hcode : code < 1000) (text : String) :
    closes (encode (codeText code).toList) (encode (inner text).toList) = false := by
  obtain ⟨a, b, c, habc, ha, -⟩ := encode_codeText hcode
  have hinner : isInner (encode (inner text).toList) = true := by
    rw [isInner, decide_eq_true_eq]
    refine (head?_encode (show ' '.toNat < 128 by decide) _).mpr ?_
    simp [inner]
  rw [habc]
  exact closes_of_isInner ha hinner

/-! ## Reading lines -/

variable (lines : List (List UInt8))

theorem replies?_line (hcode : code < 1000) (text : String) :
    replies? none (encode (line code text).toList :: lines) =
      (replies? none lines).map (⟨code, [text]⟩ :: ·) := by
  have hopen := code?_stem hcode (show ' '.toNat < 128 by decide) text
  rw [toList_line, replies?, hopen]
  simp only [content?_encode, number_codeText]
  cases replies? none lines <;> rfl

theorem replies?_opening (hcode : code < 1000) (text : String) :
    replies? none (encode (opening code text).toList :: lines) =
      replies? (some (encode (codeText code).toList, [text])) lines := by
  have hopen := code?_stem hcode (show '-'.toNat < 128 by decide) text
  rw [toList_opening, replies?, hopen]
  simp only [content?_encode]
  rfl

theorem replies?_inner (hcode : code < 1000) (texts : List String) (text : String) :
    replies? (some (encode (codeText code).toList, texts)) (encode (inner text).toList :: lines) =
      replies? (some (encode (codeText code).toList, texts ++ [text])) lines := by
  have hcontent : innerContent? (encode (inner text).toList) = some text := by
    have hline : encode (inner text).toList =
        space :: encode (text.toList ++ ['\r'] ++ ['\n']) := by
      rw [toList_inner, List.cons_append, encode_cons,
        encodeChar_of_ascii (show ' '.toNat < 128 by decide)]
      rfl
    rw [hline, innerContent?]
    simp only [isInner, List.head?_cons, decide_true, if_true, List.tail_cons, content?_encode]
  rw [replies?, closes_inner hcode, hcontent]
  rfl

theorem replies?_closing (hcode : code < 1000) (texts : List String) (text : String) :
    replies? (some (encode (codeText code).toList, texts))
        (encode (line code text).toList :: lines) =
      (replies? none lines).map (⟨code, texts ++ [text]⟩ :: ·) := by
  have hdrop : (encode (stem code ' ' text ++ ['\n'])).drop
      ((encode (codeText code).toList).length + 1) = encode (text.toList ++ ['\r'] ++ ['\n']) := by
    rw [encode_stem (by decide), List.append_cons]
    exact List.drop_left' (by simp)
  rw [toList_line, replies?, closes_stem hcode, hdrop, content?_encode, number_codeText]
  cases replies? none lines <;> rfl

theorem replies?_body (hcode : code < 1000) (texts body : List String) :
    replies? (some (encode (codeText code).toList, texts))
        (body.map (fun text => encode (inner text).toList) ++ lines) =
      replies? (some (encode (codeText code).toList, texts ++ body)) lines := by
  induction body generalizing texts with
  | nil => simp
  | cons text body ih => rw [List.map_cons, List.cons_append, replies?_inner _ hcode, ih]; simp

/-! ## Reading replies as they are written -/

/-- Whether a text is read as one reply, whatever follows: it is cut into lines of its own, and
these are the lines of the reply. -/
def IsReadAs (text : String) (reply : Received) : Prop :=
  ∃ pieces : List (List Char),
    (∀ rest, cutAfter '\n' (text.toList ++ rest) =
      (pieces ++ (cutAfter '\n' rest).1, (cutAfter '\n' rest).2)) ∧
    ∀ lines, replies? none (pieces.map encode ++ lines) = (replies? none lines).map (reply :: ·)

theorem innerLines_of_isSingle {text : String} (h : IsSingle text) :
    innerLines text = [(inner text).toList] := by
  have hfront : '\n' ∉ ' ' :: (text.toList ++ ['\r']) := by
    rw [IsSingle] at h
    simp [h]
  rw [innerLines, cutAfter_append_cons hfront, toList_inner]
  rfl

theorem flatMap_innerLines {body : List String} (h : ∀ text ∈ body, IsSingle text) :
    body.flatMap innerLines = body.map fun text => (inner text).toList := by
  induction body with
  | nil => rfl
  | cons text body ih =>
      rw [List.forall_mem_cons] at h
      rw [List.flatMap_cons, innerLines_of_isSingle h.1, ih h.2]
      rfl

theorem isReadAs_line (hcode : code < 1000) {text : String} (h : IsSingle text) :
    IsReadAs (line code text) ⟨code, [text]⟩ := by
  refine ⟨[(line code text).toList], fun rest => ?_, fun lines => replies?_line lines hcode text⟩
  rw [toList_line, List.append_assoc, List.singleton_append,
    cutAfter_append_cons (notMem_stem hcode (by decide) h)]
  rfl

theorem isReadAs_blockText (hcode : code < 1000) {header footer : String}
    (hheader : IsSingle header) (hfooter : IsSingle footer) {body : List String}
    (hbody : ∀ text ∈ body, IsSingle text) :
    IsReadAs (blockText code header body footer) ⟨code, header :: (body ++ [footer])⟩ := by
  refine ⟨(opening code header).toList :: (body.map (fun text => (inner text).toList) ++
    [(line code footer).toList]), fun rest => ?_, fun lines => ?_⟩
  · rw [blockText, String.toList_append, String.toList_append, toList_opening, toList_line,
      List.append_assoc, List.append_assoc, List.append_assoc, List.append_assoc,
      List.singleton_append, List.singleton_append,
      cutAfter_append_cons (notMem_stem hcode (by decide) hheader), cutAfter_bodyText,
      flatMap_innerLines hbody, cutAfter_append_cons (notMem_stem hcode (by decide) hfooter)]
    simp
  · rw [List.map_cons, List.map_append, List.map_map, List.cons_append, List.append_assoc,
      replies?_opening _ hcode]
    exact (replies?_body _ hcode _ _).trans (replies?_closing lines hcode _ _)

/-- What a client reads of a reply. -/
def received : Reply → Received
  | message code text =>
      match Text.lines text with
      | [] => ⟨code, [""]⟩
      | lines => ⟨code, lines⟩
  | block code header body footer => ⟨code, header :: (body ++ [footer])⟩

theorem isReadAs_message (hcode : code < 1000) (text : String) :
    IsReadAs (messageText code text) (received (.message code text)) := by
  have hsingle : ∀ line ∈ Text.lines text, IsSingle line := fun _ => isSingle_of_mem_lines
  match hlines : Text.lines text with
  | [] =>
      rw [messageText, received, hlines]
      exact isReadAs_line hcode List.not_mem_nil
  | [only] =>
      rw [messageText, received, hlines]
      exact isReadAs_line hcode (hsingle only (by simp [hlines]))
  | first :: next :: rest =>
      have hne : next :: rest ≠ [] := List.cons_ne_nil next rest
      have hmem : ∀ line ∈ next :: rest, IsSingle line := fun line hline =>
        hsingle line (hlines ▸ List.mem_cons_of_mem first hline)
      have hread := isReadAs_blockText hcode (hsingle first (by simp [hlines]))
        (hmem _ (List.getLast_mem hne)) fun line hline => hmem line (List.dropLast_subset _ hline)
      rw [List.dropLast_concat_getLast] at hread
      rw [← opening_append_closing hne] at hread
      rw [messageText, received, hlines]
      exact hread

/-- Whether a reply has a code of three digits and, in a block, texts of one line each. -/
structure Plain (r : Reply) : Prop where
  framed : r.WellFramed
  single : ∀ text ∈ r.shown, IsSingle text

theorem Plain.isReadAs {r : Reply} (h : r.Plain) : IsReadAs r.render r.received := by
  obtain ⟨hframed, hsingle⟩ := h
  cases hframed with
  | message hcode => exact isReadAs_message hcode _
  | block hcode hheader hfooter => exact isReadAs_blockText hcode hheader hfooter hsingle

/-! ## Reading many replies -/

theorem replies?_flatMap {rs : List Reply} (h : ∀ r ∈ rs, r.Plain) :
    (cutAfter '\n' (rs.flatMap fun r => r.render.toList)).2 = [] ∧
      replies? none ((cutAfter '\n' (rs.flatMap fun r => r.render.toList)).1.map encode) =
        some (rs.map received) := by
  induction rs with
  | nil => exact ⟨rfl, rfl⟩
  | cons r rs ih =>
      rw [List.forall_mem_cons] at h
      obtain ⟨pieces, hcut, hread⟩ := h.1.isReadAs
      obtain ⟨hrest, hreplies⟩ := ih h.2
      rw [List.flatMap_cons, hcut]
      refine ⟨hrest, ?_⟩
      rw [List.map_append, hread, hreplies]
      rfl

theorem flatMap_bytes (rs : List Reply) :
    (rs.flatMap fun r => Text.bytes r.render) = encode (rs.flatMap fun r => r.render.toList) := by
  induction rs with
  | nil => rfl
  | cons r rs ih => rw [List.flatMap_cons, List.flatMap_cons, encode_append, ih, bytes_eq_encode]

/-- Replies sent one after the other are read back: as many, in their order, each with its code and
its lines, those of a message being the lines of its text. No line inside a block closes it. -/
theorem replies_read_back {rs : List Reply} (h : ∀ r ∈ rs, r.Plain) :
    received? (rs.flatMap fun r => Text.bytes r.render) = some (rs.map received) ∧
      (∀ text, HasLines text.toList ((Text.lines text).map String.toList)) ∧
      ∀ code text, code < 1000 →
        closes (Text.bytes (codeText code)) (Text.bytes (inner text)) = false := by
  obtain ⟨hrest, hreplies⟩ := replies?_flatMap h
  refine ⟨?_, fun text => ?_, fun code text hcode => ?_⟩
  · have hcut := cutAfter_encode (show '\n'.toNat < 128 by decide)
      (rs.flatMap fun r => r.render.toList)
    rw [received?, flatMap_bytes, show lineFeed = UInt8.ofNat '\n'.toNat from rfl, hcut, hrest]
    exact hreplies
  · have hlines : (Text.lines text).map String.toList = lineChars text.toList := by
      simp [Text.lines]
    rw [hlines]
    exact hasLines_lineChars _
  · rw [bytes_eq_encode, bytes_eq_encode]
    exact closes_inner hcode text

/-- Lines that look like the end of a block, inside a block and inside a message. -/
theorem replies_read_back_lookalikes :
    let replies : List Reply :=
      [.message 250 "Computing\r\n250 done\n250-more\n", .message 200 "",
        .block 211 "Features:" ["211 End", "", " 211-x"] "End"]
    (∀ r ∈ replies, r.Plain) ∧
      received? (replies.flatMap fun r => Text.bytes r.render) =
        some [⟨250, ["Computing", "250 done", "250-more"]⟩, ⟨200, [""]⟩,
          ⟨211, ["Features:", "211 End", "", " 211-x", "End"]⟩] := by
  intro replies
  have hplain : ∀ r ∈ replies, r.Plain := by
    simp only [replies, List.forall_mem_cons]
    refine ⟨⟨.message (by decide), by simp [shown]⟩, ⟨.message (by decide), by simp [shown]⟩,
      ⟨.block (by decide) (by decide) (by decide), by decide⟩, by simp⟩
  exact ⟨hplain, (replies_read_back hplain).1.trans (by decide +kernel)⟩

end Reply

end FtpControl

/-! # Cutting text at separators and line ends -/

namespace FtpControl.Text

/-! ## On characters -/

/-- What stands before and after the first `sep`; `none` when there is no `sep`. -/
def cutChars (sep : Char) : List Char → Option (List Char × List Char)
  | [] => none
  | c :: cs =>
      if c = sep then some ([], cs)
      else (cutChars sep cs).map fun (before, rest) => (c :: before, rest)

@[simp] theorem cutChars_nil (sep : Char) : cutChars sep [] = none := rfl

@[simp] theorem cutChars_self (sep : Char) (cs : List Char) :
    cutChars sep (sep :: cs) = some ([], cs) := by
  simp [cutChars]

/-- The pieces and the separator put together again are the text that was cut. -/
theorem append_of_cutChars {sep : Char} {s before rest : List Char}
    (h : cutChars sep s = some (before, rest)) : s = before ++ sep :: rest := by
  induction s generalizing before with
  | nil => simp at h
  | cons c cs ih =>
      by_cases hc : c = sep
      · subst hc
        simp only [cutChars_self, Option.some.injEq, Prod.mk.injEq] at h
        simp [← h.1, ← h.2]
      · simp only [cutChars, hc, if_false, Option.map_eq_some_iff, Prod.exists,
          Prod.mk.injEq] at h
        obtain ⟨b, r, hbr, rfl, rfl⟩ := h
        simp [ih hbr]

/-- The first piece is free of the separator. -/
theorem notMem_of_cutChars {sep : Char} {s before rest : List Char}
    (h : cutChars sep s = some (before, rest)) : sep ∉ before := by
  induction s generalizing before with
  | nil => simp at h
  | cons c cs ih =>
      by_cases hc : c = sep
      · subst hc
        simp only [cutChars_self, Option.some.injEq, Prod.mk.injEq] at h
        simp [← h.1]
      · simp only [cutChars, hc, if_false, Option.map_eq_some_iff, Prod.exists,
          Prod.mk.injEq] at h
        obtain ⟨b, r, hbr, rfl, rfl⟩ := h
        simp [Ne.symm hc, ih hbr]

/-- All pieces between separators, at least one, empty ones kept. -/
def splitChars (sep : Char) : List Char → List (List Char)
  | [] => [[]]
  | c :: cs =>
      if c = sep then [] :: splitChars sep cs
      else match splitChars sep cs with
        | [] => [[c]]
        | piece :: pieces => (c :: piece) :: pieces

/-- The lines of a text: each ends at a line feed, which goes together with one carriage
return right before it. A last line without a line feed counts when it is not empty, and
keeps its carriage returns. -/
def lineChars : List Char → List (List Char)
  | [] => []
  | '\n' :: cs => [] :: lineChars cs
  | '\r' :: '\n' :: cs => [] :: lineChars cs
  | c :: cs =>
      match lineChars cs with
      | [] => [[c]]
      | line :: lines => (c :: line) :: lines

/-- Whether a character may end a line on the wire. -/
def isLineEnd (c : Char) : Bool := c = '\r' || c = '\n'

/-- A text without the carriage returns and line feeds at its end. -/
def trimChars (s : List Char) : List Char := (s.reverse.dropWhile isLineEnd).reverse

/-! ## On strings -/

/-- What stands before and after the first `sep`; `none` when there is no `sep`. -/
def cut? (sep : Char) (s : String) : Option (String × String) :=
  (cutChars sep s.toList).map fun (before, rest) => (.ofList before, .ofList rest)

/-- Cuts at the first separators into at most `n + 1` pieces. -/
def cutUpTo (sep : Char) : Nat → String → List String
  | 0, s => [s]
  | n + 1, s =>
      match cut? sep s with
      | none => [s]
      | some (before, rest) => before :: cutUpTo sep n rest

/-- All pieces between separators, at least one, empty ones kept. -/
def split (sep : Char) (s : String) : List String :=
  (splitChars sep s.toList).map .ofList

/-- The lines of a text, without their ends. -/
def lines (s : String) : List String := (lineChars s.toList).map .ofList

/-- A text without the carriage returns and line feeds at its end. -/
def trimLineEnd (s : String) : String := .ofList (trimChars s.toList)

end FtpControl.Text

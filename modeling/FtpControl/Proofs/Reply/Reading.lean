import FtpControl.Proofs.Text.Encoding
import FtpControl.Reply

/-!
# Replies as a client reads them

A client cuts what it receives after every line feed. A line that starts with a code and a space is
a reply of its own. One that starts with a code and a hyphen opens a block, which goes on to the
first line that starts with the same code and a space.
-/

namespace FtpControl.Wire

def lineFeed : UInt8 := 0x0A

def space : UInt8 := 0x20

def hyphen : UInt8 := 0x2D

def isDigit (b : UInt8) : Bool := 0x30 ≤ b && b ≤ 0x39

def isInner (line : List UInt8) : Bool := line.head? = some space

/-- The code at the front of a line, and what follows it. -/
def code? : List UInt8 → Option (List UInt8 × List UInt8)
  | a :: b :: c :: rest =>
      if isDigit a && isDigit b && isDigit c then some ([a, b, c], rest) else none
  | _ => none

/-- Whether a line closes a block of a code. -/
def closes (code line : List UInt8) : Bool := (code ++ [space]).isPrefixOf line

/-- The lines inside a block, and those after the line that closes it. -/
def inside? (code : List UInt8) :
    List (List UInt8) → Option (List (List UInt8) × List (List UInt8))
  | [] => none
  | line :: lines =>
      if closes code line then some ([], lines)
      else (inside? code lines).map fun (inner, rest) => (line :: inner, rest)

/-- The lines inside the first reply, and those after it. -/
def reply? : List (List UInt8) → Option (List (List UInt8) × List (List UInt8))
  | [] => none
  | line :: lines =>
      match code? line with
      | some (code, mark :: _) =>
          if mark = space then some ([], lines)
          else if mark = hyphen then inside? code lines
          else none
      | _ => none

/-- Whether a reply was read after which no line is left, and inside which every line starts with a
space. -/
def isAlone : Option (List (List UInt8) × List (List UInt8)) → Bool
  | some (inner, []) => inner.all isInner
  | _ => false

/-- Whether bytes are exactly one reply, inside which every line starts with a space. -/
def isOneReply (bytes : List UInt8) : Bool :=
  isAlone (reply? (Text.cutAfter lineFeed bytes).1) && (Text.cutAfter lineFeed bytes).2 = []

/-! ## Reading lines -/

theorem closes_of_isInner {a b c : UInt8} (ha : isDigit a = true) {line : List UInt8}
    (h : isInner line = true) : closes [a, b, c] line = false := by
  cases line with
  | nil => simp [isInner] at h
  | cons d line =>
      simp only [isInner, List.head?_cons, Option.some.injEq, decide_eq_true_eq] at h
      subst h
      have hne : a ≠ space := by
        rintro rfl
        simp [isDigit, space] at ha
      simp [closes, List.isPrefixOf, hne]

/-- A block is alone up to a line that closes it, exactly if every line before that starts with a
space. -/
theorem isAlone_inside {code : List UInt8}
    (hinner : ∀ line, isInner line = true → closes code line = false)
    {last : List UInt8} (hlast : closes code last = true) (lines : List (List UInt8)) :
    isAlone (inside? code (lines ++ [last])) = lines.all isInner := by
  induction lines with
  | nil => simp [inside?, hlast, isAlone]
  | cons line lines ih =>
      rw [List.cons_append, inside?, List.all_cons, ← ih]
      by_cases hclose : closes code line = true
      · -- The block ends too early: the line is not an inner one, and others are left over.
        have hno : isInner line = false := by
          rw [← Bool.not_eq_true]
          intro hin
          simp [hinner line hin] at hclose
        rw [if_pos hclose, hno]
        cases lines <;> rfl
      · rw [if_neg hclose]
        rcases inside? code (lines ++ [last]) with _ | ⟨inner, _ | ⟨next, rest⟩⟩
        · exact (Bool.and_false _).symm
        · exact List.all_cons
        · exact (Bool.and_false _).symm

end FtpControl.Wire

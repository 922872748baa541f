import FtpControl.FileInfo
import FtpControl.Proofs.Text.Decoding
import FtpControl.Proofs.Text.Splitting
import FtpControl.Proofs.Time.Moments

/-!
# Reading fact lines

A fact line ends with the name, which may have any characters in it; no fact before it has a space
or a semicolon. So the line falls apart at its first space, and what stands before that at the
semicolons, and it tells all that is known of a file but for fractions of a second and the kind
that the mode repeats.
-/

namespace FtpControl

/-! ## Facts -/

/-- What a fact line tells of a file. -/
structure Facts where
  name : String
  kind : FileKind
  size : Nat
  modified : Option Moment
  mode : Option Nat
  deriving DecidableEq, Repr

def FileInfo.facts (info : FileInfo) : Facts where
  name := info.name
  kind := info.kind
  size := info.size
  modified := info.modified.map Timestamp.moment
  mode := info.mode.map permissions

def FileKind.ofFact? (fact : String) : Option FileKind :=
  [file, directory, symlink, other].find? fun kind => kind.fact = fact

namespace Facts

/-- The facts before a name, each with its key. -/
def cut (front : String) : List (String × String) :=
  (Text.split ';' front).filterMap (Text.cut? '=')

/-- Reads a fact line: the name after the first space, and before it a fact up to each semicolon. -/
def read? (line : String) : Option Facts := do
  let (front, name) ← Text.cut? ' ' line
  let kind ← FileKind.ofFact? (← (cut front).lookup "type")
  let size ← (cut front).lookup "size"
  some {
    name
    kind
    size := Nat.ofDigitChars 10 size.toList 0
    modified := ((cut front).lookup "modify").map Moment.read
    mode := ((cut front).lookup "UNIX.mode").map fun mode => Nat.ofDigitChars 8 mode.toList 0 }

end Facts

/-! ## Lines as facts -/

theorem FileKind.ofFact?_fact (kind : FileKind) : ofFact? kind.fact = some kind := by
  cases kind <;> decide

/-- Whether a text can stand in a fact. -/
def IsPlain (s : String) : Prop := ' ' ∉ s.toList ∧ ';' ∉ s.toList

instance (s : String) : Decidable (IsPlain s) := inferInstanceAs (Decidable (_ ∧ _))

/-- A fact with its key and its semicolon. -/
def writeFact (fact : String × String) : String := fact.1 ++ "=" ++ fact.2 ++ ";"

/-- The facts that are known of a file, with their keys. -/
def FileInfo.factList (info : FileInfo) : List (String × String) :=
  ("type", info.kind.fact) :: ("size", toString info.size) ::
    ((info.modified.map fun t => ("modify", t.compact)).toList ++
      (info.mode.map fun m => ("UNIX.mode", Numeral.octal 4 (permissions m))).toList)

theorem FileInfo.factLine_eq (info : FileInfo) :
    info.factLine = String.join (info.factList.map writeFact) ++ " " ++ info.name := by
  apply String.toList_injective
  unfold factLine factList writeFact
  cases info.modified <;> cases info.mode <;> simp

/-- Whether a key and a value can be told apart from what stands around them. -/
structure IsFact (fact : String × String) : Prop where
  key : IsPlain fact.1
  sign : '=' ∉ fact.1.toList
  value : IsPlain fact.2

theorem isPlain_of_isDigit {s : String} (h : ∀ c ∈ s.toList, c.isDigit = true) : IsPlain s :=
  ⟨fun hspace => absurd (h _ hspace) (by decide), fun hmark => absurd (h _ hmark) (by decide)⟩

theorem Timestamp.isPlain_compact (t : Timestamp) : IsPlain t.compact :=
  ⟨fun hspace => absurd (t.isDigit_or_sign_of_mem_compact _ hspace) (by decide),
    fun hmark => absurd (t.isDigit_or_sign_of_mem_compact _ hmark) (by decide)⟩

theorem isFact {key value : String} (hkey : IsPlain key ∧ '=' ∉ key.toList)
    (hvalue : IsPlain value) : IsFact (key, value) := ⟨hkey.1, hkey.2, hvalue⟩

theorem FileInfo.mem_factList_iff {info : FileInfo} {fact : String × String} :
    fact ∈ info.factList ↔ fact = ("type", info.kind.fact) ∨ fact = ("size", toString info.size) ∨
      (∃ t, info.modified = some t ∧ ("modify", t.compact) = fact) ∨
      ∃ m, info.mode = some m ∧ ("UNIX.mode", Numeral.octal 4 (permissions m)) = fact := by
  simp only [factList, List.mem_cons, List.mem_append, Option.mem_toList, Option.map_eq_some_iff]

theorem FileInfo.isFact_of_mem {info : FileInfo} : ∀ fact ∈ info.factList, IsFact fact := by
  intro fact hfact
  rcases mem_factList_iff.mp hfact with rfl | rfl | ⟨t, -, rfl⟩ | ⟨m, -, rfl⟩
  · exact isFact (by decide) (by cases info.kind <;> decide)
  · exact isFact (by decide) (isPlain_of_isDigit Numeral.isDigit_of_mem_toString)
  · exact isFact (by decide) t.isPlain_compact
  · exact isFact (by decide) (isPlain_of_isDigit Numeral.isDigit_of_mem_octal)

/-! ## Reading what was written -/

theorem IsFact.space_notMem {fact : String × String} (h : IsFact fact) :
    ' ' ∉ (writeFact fact).toList := by
  simp only [writeFact, String.toList_append, List.mem_append, not_or]
  exact ⟨⟨⟨h.key.1, by decide⟩, h.value.1⟩, by decide⟩

theorem IsFact.cut?_eq {fact : String × String} (h : IsFact fact) :
    Text.cut? '=' (fact.1 ++ "=" ++ fact.2) = some fact := Text.cut?_join h.sign fact.2

variable {facts : List (String × String)}

theorem notMem_join {c : Char} (h : ∀ fact ∈ facts, c ∉ (writeFact fact).toList) :
    c ∉ (String.join (facts.map writeFact)).toList := by
  rw [String.toList_join, List.mem_flatMap]
  rintro ⟨text, htext, hmem⟩
  obtain ⟨fact, hfact, rfl⟩ := List.mem_map.mp htext
  exact h fact hfact hmem

/-- Facts that were put together are cut into just these facts. -/
theorem Facts.cut_join (h : ∀ fact ∈ facts, IsFact fact) :
    cut (String.join (facts.map writeFact)) = facts := by
  induction facts with
  | nil => decide
  | cons fact facts ih =>
      rw [List.forall_mem_cons] at h
      have hmark : ';' ∉ (fact.1 ++ "=" ++ fact.2).toList := by
        simp only [String.toList_append, List.mem_append, not_or]
        exact ⟨⟨h.1.key.2, by decide⟩, h.1.value.2⟩
      have htext : String.join ((fact :: facts).map writeFact) =
          (fact.1 ++ "=" ++ fact.2) ++ .singleton ';' ++ String.join (facts.map writeFact) := by
        simp [writeFact]
      rw [cut, htext, Text.split_append, Text.split_of_notMem hmark, List.singleton_append,
        List.filterMap_cons_some h.1.cut?_eq]
      exact congrArg (fact :: ·) (ih h.2)

/-- The facts that are known are found by their keys. -/
theorem FileInfo.lookup_factList (info : FileInfo) :
    info.factList.lookup "type" = some info.kind.fact ∧
      info.factList.lookup "size" = some (toString info.size) ∧
      info.factList.lookup "modify" = info.modified.map Timestamp.compact ∧
      info.factList.lookup "UNIX.mode" =
        info.mode.map fun m => Numeral.octal 4 (permissions m) := by
  obtain ⟨name, kind, size, modified, mode⟩ := info
  cases modified <;> cases mode <;> simp [factList, List.lookup_cons]

/-- A fact line is read as what it was written for, whatever characters the name has. -/
theorem FileInfo.read_factLine {info : FileInfo}
    (h : ∀ t ∈ info.modified, t.nanos < 2000000000) :
    Facts.read? info.factLine = some info.facts := by
  obtain ⟨htype, hsize, hmodify, hmode⟩ := info.lookup_factList
  have hcut : Text.cut? ' ' info.factLine =
      some (String.join (info.factList.map writeFact), info.name) := by
    rw [factLine_eq]
    exact Text.cut?_join (notMem_join fun fact hfact => (isFact_of_mem fact hfact).space_notMem)
      info.name
  have hmoment : (info.modified.map Timestamp.compact).map Moment.read =
      info.modified.map Timestamp.moment := by
    rw [Option.map_map]
    exact Option.map_congr fun t ht => Timestamp.read_compact (h t ht)
  have hbits : (info.mode.map fun m => Numeral.octal 4 (permissions m)).map
      (fun mode => Nat.ofDigitChars 8 mode.toList 0) = info.mode.map permissions := by
    cases info.mode with
    | none => rfl
    | some m => exact congrArg some (Numeral.ofDigitChars_octal 4 (permissions m))
  simp only [Facts.read?, hcut, Facts.cut_join isFact_of_mem, htype, hsize, hmodify, hmode,
    FileKind.ofFact?_fact, Numeral.ofDigitChars_toString, hmoment, hbits, Option.bind_eq_bind,
    Option.bind_some, facts]

/-! ## What equal lines tell -/

namespace FileInfo

theorem map_eq_map_iff_rel {α β : Type} {f : α → β} {x y : Option α} :
    x.map f = y.map f ↔ Option.Rel (fun a b => f a = f b) x y := by
  constructor
  · intro h
    cases x <;> cases y <;> simp_all [Option.rel_some_some, Option.rel_none_none]
  · rintro (h | _)
    · exact congrArg some h
    · rfl

theorem facts_eq_iff {a b : FileInfo} :
    a.facts = b.facts ↔ a.name = b.name ∧ a.kind = b.kind ∧ a.size = b.size ∧
      Option.Rel Timestamp.Agree a.modified b.modified ∧
      Option.Rel (fun m n => m % 0o10000 = n % 0o10000) a.mode b.mode := by
  have hagree : (fun s t => Timestamp.moment s = Timestamp.moment t) = Timestamp.Agree :=
    funext fun _ => funext fun _ => propext Timestamp.moment_eq_iff
  simp only [facts, Facts.mk.injEq, map_eq_map_iff_rel, hagree, permissions]

/-- A line has nothing in it but what can be read from it. -/
theorem factLine_congr {a b : FileInfo} (h : a.facts = b.facts) : a.factLine = b.factLine := by
  obtain ⟨name, kind, size, modified, mode⟩ := a
  obtain ⟨_, _, _, modified', mode'⟩ := b
  obtain ⟨rfl, rfl, rfl, htime, hmode⟩ := facts_eq_iff.mp h
  cases htime with
  | none =>
      cases hmode with
      | none => rfl
      | some hbits => simp only [factLine, permissions, hbits]
  | some hagree =>
      cases hmode with
      | none => simp only [factLine, hagree.compact_eq]
      | some hbits => simp only [factLine, hagree.compact_eq, permissions, hbits]

/-- Fact lines lose nothing. Each is read as what it was written for; and two are the same exactly
if names, kinds and sizes are, the times agree to the second, and the modes in their lowest twelve
bits. Proper times agree if they count the same seconds, and both are in a leap second or
neither. -/
theorem factLine_loses_nothing {a b : FileInfo} (ha : ∀ t ∈ a.modified, t.nanos < 2000000000)
    (hb : ∀ t ∈ b.modified, t.nanos < 2000000000) :
    Facts.read? a.factLine = some a.facts ∧
      (a.factLine = b.factLine ↔ a.name = b.name ∧ a.kind = b.kind ∧ a.size = b.size ∧
        Option.Rel Timestamp.Agree a.modified b.modified ∧
        Option.Rel (fun m n => m % 0o10000 = n % 0o10000) a.mode b.mode) ∧
      ∀ s ∈ a.modified, ∀ t ∈ b.modified, s.IsProper → t.IsProper →
        (s.Agree t ↔ s.seconds = t.seconds ∧ s.nanos / 1000000000 = t.nanos / 1000000000) := by
  refine ⟨read_factLine ha, ?_, fun s _ t _ => Timestamp.agree_iff⟩
  rw [← facts_eq_iff]
  refine ⟨fun h => ?_, factLine_congr⟩
  rw [← Option.some.injEq, ← read_factLine ha, ← read_factLine hb, h]

/-- A name that looks like facts, in a year with a sign. The fraction of the second and the bits of
the kind are not in the line. -/
theorem factLine_loses_nothing_imitated :
    let a : FileInfo :=
      { name := " size=7;modify=1; a", kind := .symlink, size := 5
        modified := some ⟨253402300800, 999999999⟩, mode := some 0o120777 }
    let b : FileInfo := { a with modified := some ⟨253402300800, 0⟩, mode := some 0o777 }
    a.factLine = b.factLine ∧
      Facts.read? a.factLine = some
        { name := " size=7;modify=1; a", kind := .symlink, size := 5
          modified := some ⟨⟨10000, 1, 1⟩, 0, 0, 0⟩, mode := some 0o777 } := by
  intro a b
  obtain ⟨hread, hsame, -⟩ := factLine_loses_nothing (a := a) (b := b) (by simp [a]) (by simp [b])
  refine ⟨hsame.mpr ⟨rfl, rfl, rfl, .some ⟨rfl, rfl⟩, .some rfl⟩, hread.trans ?_⟩
  rfl

end FileInfo

end FtpControl

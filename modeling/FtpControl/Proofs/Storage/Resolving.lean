import FtpControl.Proofs.Storage.ServedPaths

/-!
# What a session's path stands for

A session's path stands for the root with the names that stand between its slashes, in their order;
dots and what is empty count for nothing. So it goes on from the root part by part and never up
again, and a path behind another goes on from where that one ended.
-/

namespace FtpControl

/-! ## Parts of a path -/

/-- A part of a path, as the system reads it. -/
inductive PathPart where
  /-- The slash at the front of a path that starts at the top. -/
  | top
  /-- The dot at the front of a path that starts at the working directory. -/
  | here
  | parent
  | name (text : String)
  deriving DecidableEq, Repr

namespace PathPart

def ofPiece? (piece : String) : Option PathPart :=
  if piece = "" ∨ piece = "." then none else if piece = ".." then some parent else some (name piece)

/-- What the front of a path says of where it starts. -/
def front (path : String) : List PathPart :=
  if path.toList.head? = some '/' then [top]
  else if (Text.split '/' path).head? = some "." then [here] else []

/-- The parts of a path. Dots within it and doubled slashes are none. -/
def ofPath (path : String) : List PathPart :=
  front path ++ (Text.split '/' path).filterMap ofPiece?

/-- What follows a slash does not change where a path starts. -/
theorem front_append {path : String} (hne : path ≠ "") (more : String) :
    front (path ++ "/" ++ more) = front path := by
  have hchars : (path ++ "/" ++ more).toList.head? = path.toList.head? := by
    cases hpath : path.toList with
    | nil => exact absurd (String.toList_eq_nil_iff.mp hpath) hne
    | cons c cs => simp [hpath]
  have hpieces : (Text.split '/' (path ++ "/" ++ more)).head? = (Text.split '/' path).head? := by
    rw [show path ++ "/" ++ more = path ++ .singleton '/' ++ more from rfl, Text.split_append,
      List.head?_append_of_ne_nil _ (Text.split_ne_nil '/' path)]
  rw [front, front, hchars, hpieces]

theorem front_slash (more : String) : front ("/" ++ more) = [top] := by simp [front]

end PathPart

namespace ServedDirectory

open PathPart

theorem ofPiece?_of_isEntryName {name : String} (h : IsEntryName name) :
    ofPiece? name = some (.name name) := by
  obtain ⟨hsome, hdot, hup⟩ := h.ordinary
  simp [ofPiece?, hsome, hdot, hup]

/-- A name behind a path is one more part of it. -/
theorem ofPath_join (path : String) {name : String} (h : IsEntryName name) :
    ofPath (join path name) = ofPath path ++ [.name name] := by
  have hslash : ∀ start : String, (Text.split '/' (start ++ "/" ++ name)).filterMap ofPiece? =
      (Text.split '/' start).filterMap ofPiece? ++ [.name name] := by
    intro start
    rw [split_append_slash start name h.2, List.filterMap_append]
    simp [ofPiece?_of_isEntryName h]
  unfold join
  by_cases hopen : isOpen path = true
  · rw [if_pos hopen]
    by_cases hempty : path = ""
    · subst hempty
      have hhead : name.toList.head? ≠ some '/' := fun hslash => h.2 (List.mem_of_head? hslash)
      have hnothing : ofPath "" = [] := by decide
      rw [hnothing, String.empty_append, ofPath, front, Text.split_of_notMem h.2]
      simp [hhead, h.ordinary.2.1, ofPiece?_of_isEntryName h]
    · obtain ⟨start, rfl⟩ := eq_append_slash_of_isOpen hopen hempty
      have hsame : start ++ "/" ++ "" = start ++ "/" := String.append_empty
      have hnothing : (Text.split '/' (start ++ "/")).filterMap ofPiece? =
          (Text.split '/' start).filterMap ofPiece? := by
        rw [← hsame, split_append_slash start "" (by simp), List.filterMap_append]
        simp [ofPiece?]
      have hfront : front (start ++ "/" ++ name) = front (start ++ "/") := by
        by_cases hstart : start = ""
        · subst hstart
          exact (front_slash name).trans (front_slash "").symm
        · rw [front_append hstart, ← hsame, front_append hstart]
      rw [ofPath, ofPath, hslash, hnothing, hfront, List.append_assoc]
  · rw [if_neg hopen]
    have hne : path ≠ "" := by
      rintro rfl
      exact hopen rfl
    rw [ofPath, ofPath, hslash, front_append hne, List.append_assoc]

/-! ## Names below the root -/

variable {d : ServedDirectory}

/-- The path of names below the root has the parts of the root, and then the names. -/
theorem ofPath_pathOf {names : List String} (h : ∀ name ∈ names, IsEntryName name) :
    ofPath (d.pathOf names) = ofPath d.root ++ names.map .name := by
  induction names using List.reverseRecOn with
  | nil => exact (List.append_nil _).symm
  | append_singleton init last ih =>
      rw [List.forall_mem_append, List.forall_mem_singleton] at h
      rw [pathOf_concat h.1, ofPath_join _ h.2, ih h.1, List.map_append, List.append_assoc]
      rfl

/-- The path of names below the root is the text of the root and of the names, with one slash
between each two. -/
theorem pathOf_eq (d : ServedDirectory) (names : List String) :
    d.pathOf names =
      d.root ++ (if names = [] ∨ isOpen d.root then "" else "/") ++ "/".intercalate names := by
  cases names with
  | nil => simp [pathOf]
  | cons first rest =>
      have hfold : ∀ start name : String,
          rest.foldl (fun path name => path ++ "/" ++ name) (start ++ name) =
            start ++ "/".intercalate (name :: rest) := by
        induction rest with
        | nil =>
            intro start name
            rw [List.foldl_nil, String.intercalate_singleton]
        | cons second rest ih =>
            intro start name
            rw [List.foldl_cons, ih (start ++ name ++ "/") second, String.intercalate_cons_cons]
            apply String.toList_injective
            simp
      rw [pathOf, ← hfold, join]
      by_cases hopen : isOpen d.root = true <;> simp [hopen]

/-! ## Names between slashes -/

theorem segments_append (path more : String) :
    segments (path ++ "/" ++ more) = segments path ++ segments more := by
  rw [segments, show path ++ "/" ++ more = path ++ .singleton '/' ++ more from rfl,
    Text.split_append, List.filter_append]
  rfl

/-- Pieces without slashes, with a slash between each two, have the names that are among them. -/
theorem segments_intercalate {pieces : List String} (h : ∀ piece ∈ pieces, '/' ∉ piece.toList) :
    segments ("/".intercalate pieces) =
      pieces.filter fun piece => piece ≠ "" ∧ piece ≠ "." ∧ piece ≠ ".." := by
  by_cases hne : pieces = []
  · subst hne
    rfl
  · have hsplit : Text.split '/' ("/".intercalate pieces) = pieces :=
      Text.split_intercalate hne h
    rw [segments, hsplit]
    refine List.filter_congr fun piece _ => ?_
    rw [isName, Bool.eq_iff_iff]
    simp [and_assoc]

/-- A session's path stands for the root with the names between its slashes, in their order: as a
text, and part by part as the system reads it. A path and another behind a slash have the names of
both, so that what is no name makes no difference wherever it stands. -/
theorem resolves_lexically (d : ServedDirectory) (path : String) :
    (∃ pieces, path = "/".intercalate pieces ∧ ∀ piece ∈ pieces, '/' ∉ piece.toList) ∧
    (∀ pieces, path = "/".intercalate pieces → (∀ piece ∈ pieces, '/' ∉ piece.toList) →
      segments path = pieces.filter fun piece => piece ≠ "" ∧ piece ≠ "." ∧ piece ≠ "..") ∧
    d.resolve path = d.root ++ (if segments path = [] ∨ isOpen d.root then "" else "/") ++
      "/".intercalate (segments path) ∧
    ofPath (d.resolve path) = ofPath d.root ++ (segments path).map .name ∧
    ".." ∉ segments path ∧
    (∀ more, segments (path ++ "/" ++ more) = segments path ++ segments more) ∧
    ∀ idle ∈ ["", ".", ".."],
      d.resolve (idle ++ "/" ++ path) = d.resolve path ∧
      d.resolve (path ++ "/" ++ idle) = d.resolve path ∧
      ∀ more, d.resolve (path ++ "/" ++ idle ++ "/" ++ more) = d.resolve (path ++ "/" ++ more) := by
  refine ⟨⟨Text.split '/' path, (Text.intercalate_split '/' path).symm,
    fun piece => Text.notMem_of_mem_split⟩, ?_, pathOf_eq d _,
    ofPath_pathOf fun name => isEntryName_of_mem_segments, ?_, segments_append path, ?_⟩
  · rintro pieces rfl hpieces
    exact segments_intercalate hpieces
  · intro hup
    exact (isEntryName_of_mem_segments hup).ordinary.2.2 rfl
  · intro idle hidle
    have hnone : ∀ idle ∈ ["", ".", ".."], segments idle = [] := by decide
    simp only [resolve, segments_append, hnone idle hidle, List.nil_append, List.append_nil,
      implies_true, and_self]

/-- Dots, parents and slashes in all places of a path, below a root with a slash at its end. -/
theorem resolves_lexically_dotted :
    let d : ServedDirectory := ⟨"./srv/"⟩
    d.resolve "/a/.././..//etc/./passwd/" = "./srv/a/etc/passwd" ∧
      ofPath (d.resolve "/a/.././..//etc/./passwd/") =
        [.here, .name "srv", .name "a", .name "etc", .name "passwd"] := by
  intro d
  obtain ⟨-, hpieces, htext, hparts, -⟩ := resolves_lexically d "/a/.././..//etc/./passwd/"
  have hnames := hpieces ["", "a", "..", ".", "..", "", "etc", ".", "passwd", ""] (by decide)
    (by decide)
  have hthree : segments "/a/.././..//etc/./passwd/" = ["a", "etc", "passwd"] := by
    rw [hnames]
    decide
  rw [hthree] at htext hparts
  exact ⟨htext.trans (by decide), hparts.trans (by decide)⟩

end ServedDirectory

end FtpControl

import Mathlib.Data.List.Induction
import FtpControl.Proofs.FileTree.Leading
import FtpControl.Proofs.Text.Splitting
import FtpControl.Storage.ServedDirectory

/-!
# Paths below a served directory

A session's path stands for the path of its parent with one more name, so that a walk along it goes
where a walk to the parent goes, and then looks that name up.
-/

namespace FtpControl

namespace FileTree

/-- The names in a path, without the empty one that a slash at the end leaves. -/
def properNames (path : String) : List String := (Text.split '/' path).filter (· ≠ "")

theorem names_of_split {path last : String} {before : List String}
    (h : Text.split '/' path = before ++ [last]) :
    names path = before.filter (· ≠ "") ++ [last] := by
  rw [names, h, List.reverse_append]
  simp

theorem names_eq_or (path : String) :
    names path = properNames path ∨ names path = properNames path ++ [""] := by
  have hne := Text.split_ne_nil '/' path
  have hsplit := (List.dropLast_concat_getLast hne).symm
  rw [properNames, names_of_split hsplit]
  by_cases hlast : (Text.split '/' path).getLast hne = ""
  · right
    rw [hlast] at hsplit ⊢
    conv => rhs; rw [hsplit]
    simp
  · left
    conv => rhs; rw [hsplit]
    simp [hlast]

end FileTree

namespace ServedDirectory

open FileTree

/-- Whether a text can be a name in a directory. -/
def IsEntryName (name : String) : Prop := isName name = true ∧ '/' ∉ name.toList

theorem isEntryName_of_mem_segments {path name : String} (h : name ∈ segments path) :
    IsEntryName name := by
  obtain ⟨hpiece, hname⟩ := List.mem_filter.mp h
  exact ⟨hname, Text.notMem_of_mem_split hpiece⟩

theorem IsEntryName.ordinary {name : String} (h : IsEntryName name) :
    name ≠ "" ∧ name ≠ "." ∧ name ≠ ".." := by
  have hname := h.1
  simp only [isName, Bool.and_eq_true, bne_iff_ne] at hname
  exact ⟨hname.1.1, hname.1.2, hname.2⟩

/-! ## One more name -/

theorem split_append_slash (path name : String) (h : '/' ∉ name.toList) :
    Text.split '/' (path ++ "/" ++ name) = Text.split '/' path ++ [name] := by
  rw [← Text.split_of_notMem h]
  exact Text.split_append '/' path name

/-- A path that is open ends in a slash, or is empty. -/
theorem eq_append_slash_of_isOpen {path : String} (h : isOpen path = true) (hne : path ≠ "") :
    ∃ front, path = front ++ "/" := by
  simp only [isOpen, hne, decide_false, Bool.false_or, decide_eq_true_eq] at h
  obtain ⟨front, hfront⟩ := List.getLast?_eq_some_iff.mp h
  refine ⟨.ofList front, String.toList_injective ?_⟩
  rw [hfront]
  simp

theorem names_join (path : String) {name : String} (h : IsEntryName name) :
    names (join path name) = properNames path ++ [name] := by
  have hslash : ∀ front : String, names (front ++ "/" ++ name) = properNames front ++ [name] :=
    fun front => names_of_split (split_append_slash front name h.2)
  unfold join
  by_cases hopen : isOpen path = true
  · rw [if_pos hopen]
    by_cases hempty : path = ""
    · subst hempty
      have hsingle : Text.split '/' ("" ++ name) = [] ++ [name] := by
        rw [String.empty_append, Text.split_of_notMem h.2, List.nil_append]
      rw [names_of_split hsingle]
      rfl
    · obtain ⟨front, rfl⟩ := eq_append_slash_of_isOpen hopen hempty
      have hnothing : Text.split '/' (front ++ "/") = Text.split '/' front ++ [""] := by
        have := split_append_slash front "" (by simp)
        simpa using this
      rw [hslash front, properNames, properNames, hnothing]
      simp
  · rw [if_neg hopen]
    exact hslash path

theorem origin_join (directory : Location) {path : String} (name : String) (hne : path ≠ "") :
    origin directory (join path name) = origin directory path := by
  have hhead : ∀ tail : String, (path ++ tail).toList.head? = path.toList.head? := by
    intro tail
    cases hpath : path.toList with
    | nil => exact absurd (String.toList_eq_nil_iff.mp hpath) hne
    | cons c cs => simp [hpath]
  unfold join origin
  split
  · rw [hhead]
  · rw [String.append_assoc, hhead]

theorem isOpen_append (path : String) {name : String} (h : IsEntryName name) :
    isOpen (path ++ name) = false := by
  have hlast : name.toList.getLast? ≠ some '/' := fun hslash =>
    h.2 (List.mem_of_getLast? hslash)
  simp [isOpen, h.ordinary.1, hlast]

variable {d : ServedDirectory}

/-- The path of one more name is that of the names before, and the name. -/
theorem pathOf_concat {front : List String} (hfront : ∀ name ∈ front, IsEntryName name)
    (last : String) : d.pathOf (front ++ [last]) = join (d.pathOf front) last := by
  cases front with
  | nil => rfl
  | cons first rest =>
      have hopen : isOpen (d.pathOf (first :: rest)) = false := by
        rcases List.eq_nil_or_concat rest with rfl | ⟨init, name, rfl⟩
        · have hfirst := hfront first List.mem_cons_self
          simp only [pathOf, List.foldl_nil, join]
          split <;> exact isOpen_append _ hfirst
        · have hname := hfront name (by simp)
          simp only [pathOf, List.concat_eq_append, List.foldl_append, List.foldl_cons,
            List.foldl_nil]
          exact isOpen_append _ hname
      rw [join, if_neg (by simp [hopen])]
      simp [pathOf]

theorem pathOf_ne_empty (hroot : d.root ≠ "") (front : List String) : d.pathOf front ≠ "" := by
  have hjoin : ∀ front name, front ≠ "" → join front name ≠ "" := by
    intro front name hfront
    unfold join
    split <;> simp [hfront]
  cases front with
  | nil => exact hroot
  | cons first rest =>
      rw [pathOf]
      generalize hpath : join d.root first = path
      have hne : path ≠ "" := hpath ▸ hjoin d.root first hroot
      clear hpath
      induction rest generalizing path with
      | nil => exact hne
      | cons name rest ih => exact ih _ (by simp [hne])

theorem properNames_join (path : String) {name : String} (h : IsEntryName name) :
    properNames (join path name) = properNames path ++ [name] := by
  rcases names_eq_or (join path name) with hnames | hnames
  · rw [← hnames, names_join path h]
  · rw [names_join path h] at hnames
    obtain ⟨-, hlast⟩ := List.append_inj' hnames rfl
    exact absurd (List.singleton_inj.mp hlast) h.ordinary.1

/-- The path of names below the root starts where the root's path does, and goes on with them. -/
theorem properNames_pathOf (hroot : d.root ≠ "") {front : List String}
    (hfront : ∀ name ∈ front, IsEntryName name) (directory : Location) :
    origin directory (d.pathOf front) = origin directory d.root ∧
      properNames (d.pathOf front) = properNames d.root ++ front := by
  induction front using List.reverseRecOn with
  | nil => exact ⟨rfl, (List.append_nil _).symm⟩
  | append_singleton init last ih =>
      rw [List.forall_mem_append, List.forall_mem_singleton] at hfront
      obtain ⟨horigin, hnames⟩ := ih hfront.1
      rw [pathOf_concat hfront.1, origin_join _ _ (pathOf_ne_empty hroot init),
        properNames_join _ hfront.2, hnames, List.append_assoc]
      exact ⟨horigin, rfl⟩

theorem names_pathOf (hroot : d.root ≠ "") {front : List String}
    (hfront : ∀ name ∈ front, IsEntryName name) (hne : front ≠ []) :
    names (d.pathOf front) = properNames d.root ++ front := by
  have hsplit := List.dropLast_concat_getLast hne
  rw [← hsplit, List.forall_mem_append, List.forall_mem_singleton] at hfront
  obtain ⟨-, hnames⟩ := properNames_pathOf hroot hfront.1 []
  rw [← hsplit, pathOf_concat hfront.1, names_join _ hfront.2, hnames, List.append_assoc]

/-- Below the top, a session's path stands for its parent's path and a name. -/
theorem resolve_eq_join {path : String} (h : segments path ≠ []) :
    ∃ name, IsEntryName name ∧
      d.resolve path = join (d.pathOf (segments path).dropLast) name := by
  have hsplit := List.dropLast_concat_getLast h
  have hfront : ∀ name ∈ (segments path).dropLast, IsEntryName name := fun name hname =>
    isEntryName_of_mem_segments (List.dropLast_subset _ hname)
  refine ⟨(segments path).getLast h, isEntryName_of_mem_segments (List.getLast_mem h), ?_⟩
  rw [← pathOf_concat hfront, hsplit]
  rfl

/-! ## Parents -/

variable {t : FileTree} {spot : Spot} {path : String}

theorem toList_subset_join (front name : String) : front.toList ⊆ (join front name).toList := by
  unfold join
  split <;> simp

/-- The path of a parent is one that the system takes, if the whole path is. -/
theorem isPath_parent {front name : String} (hfront : front ≠ "")
    (h : IsPath (join front name)) : IsPath front := by
  refine ⟨?_, hfront⟩
  have hnul := h.1
  rw [← Bool.not_eq_true, List.contains_iff_mem] at hnul ⊢
  exact fun hmem => hnul (toList_subset_join front name hmem)

/-- A path leads to a directory that its names lead to. A slash at its end changes nothing. -/
theorem canonical_of_goes {spent left : Nat} {goal : Location} (hpath : IsPath path)
    (h : t.Goes spent (origin t.workingDirectory path) (properNames path) goal)
    (hlinks : linkLimit = left + spent) (hdir : t.isDirectory goal = true) :
    t.canonical path = .ok goal := by
  refine canonical_eq_ok_iff.mpr ⟨hpath, walks_of_walk ?_⟩
  have hcreate := Ending.spell_ne_create
  have hkeep := Ending.spell_ne_keep
  rcases names_eq_or path with hnames | hnames
  · rw [hnames, ← List.append_nil (properNames path), hlinks,
      h.walk_append left hcreate (.inr hkeep), walk]
  · rw [hnames, hlinks, h.walk_append left hcreate (.inr hkeep), walk_skip hdir (.inl rfl), walk]

/-- The names of a session's path lead to where its parent leads, and the last one on from there. -/
theorem goes_to_parent (hsegments : segments path ≠ [])
    (hparent : d.pathOf (segments path).dropLast ≠ "") (h : t.Leads .spell (d.resolve path) spot) :
    ∃ spent left mid front last, IsEntryName last ∧ linkLimit = left + spent ∧
      names (d.resolve path) = front ++ [last] ∧
      t.Goes spent (origin t.workingDirectory (d.resolve path)) front mid ∧
      t.canonical (d.pathOf (segments path).dropLast) = .ok mid ∧
      t.Walks .spell left mid [last] spot := by
  obtain ⟨last, hlast, hresolve⟩ := resolve_eq_join (d := d) hsegments
  generalize d.pathOf (segments path).dropLast = front at hparent hresolve ⊢
  obtain ⟨hpath, hwalks⟩ := h
  have hnames : names (d.resolve path) = properNames front ++ [last] := by
    rw [hresolve, names_join _ hlast]
  have horigin : origin t.workingDirectory (d.resolve path) =
      origin t.workingDirectory front := by
    rw [hresolve, origin_join _ _ hparent]
  rw [hnames] at hwalks
  obtain ⟨spent, left, mid, hlinks, hgoes, hends⟩ := hwalks.cut nofun
  have hcanonical := canonical_of_goes (isPath_parent hparent (hresolve ▸ hpath))
    (horigin ▸ hgoes) hlinks hends.isDirectory
  exact ⟨spent, left, mid, properNames front, last, hlast, hlinks, hnames, hgoes, hcanonical,
    hends⟩

/-- A walk along a session's path goes where a walk to the parent goes, and on with the last name
from there. -/
theorem leads_through_parent (hsegments : segments path ≠ [])
    (hparent : d.pathOf (segments path).dropLast ≠ "") (h : t.Leads .spell (d.resolve path) spot) :
    ∃ left mid last, IsEntryName last ∧
      t.canonical (d.pathOf (segments path).dropLast) = .ok mid ∧
      t.Walks .spell left mid [last] spot ∧
      ∀ {other : Ending} {there : Spot}, other ≠ .create → t.Walks other left mid [last] there →
        t.Leads other (d.resolve path) there := by
  obtain ⟨spent, left, mid, front, last, hlast, hlinks, hnames, hgoes, hmid, hends⟩ :=
    goes_to_parent hsegments hparent h
  refine ⟨left, mid, last, hlast, hmid, hends, fun ho hthere => ⟨h.1, walks_of_walk ?_⟩⟩
  rw [hnames, hlinks, hgoes.walk_append left ho (.inl (List.cons_ne_nil last []))]
  exact walk_of_walks hthere

end ServedDirectory

end FtpControl

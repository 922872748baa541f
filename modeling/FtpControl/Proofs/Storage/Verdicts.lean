import FtpControl.Proofs.FileTree.Visiting
import FtpControl.Proofs.Storage.Confining

/-!
# Verdicts on paths

What is found out about a session's path before anything is done: where it leads in the directory,
that it leads to nothing below a place in the directory, that it leads out, or why it cannot be
followed. Two trees that have the directory in common do not differ in anything else that can be
asked of them. A path that stays with the directory and those above it has the same verdict in both.
-/

namespace FtpControl

namespace ServedDirectory

open FileTree

variable {d : ServedDirectory} {t u : FileTree} {home : Location} {left : Nat} {path : String}
  {front : List String}

/-! ## The root -/

/-- The root's path leads to a directory, below directories, and so many links may be followed from
there on. -/
structure Homes (d : ServedDirectory) (home : Location) (left : Nat) (t : FileTree) : Prop where
  path : IsPath d.root
  goes : ∃ spent, linkLimit = left + spent ∧
    t.Goes spent (origin t.workingDirectory d.root) (properNames d.root) home
  directory : ∀ {above}, above <+: home → t.isDirectory above = true

theorem Homes.left_le (h : d.Homes home left t) : left ≤ linkLimit := by
  obtain ⟨spent, hlinks, -⟩ := h.goes
  omega

theorem Homes.canonical (h : d.Homes home left t) : t.canonical d.root = .ok home := by
  obtain ⟨spent, hlinks, hgoes⟩ := h.goes
  exact canonical_of_goes h.path hgoes hlinks (h.directory (List.prefix_refl home))

/-- What a path of the directory leads to is up to a walk from the directory. -/
theorem Homes.reach (h : d.Homes home left t) {ending : Ending} (hending : ending ≠ .create)
    (hfront : ∀ name ∈ front, IsEntryName name) (hne : front ≠ []) :
    t.reach ending (d.pathOf front) =
      if (d.pathOf front).toList.contains '\x00' then .error nulFault
      else (t.walk ending left home front).mapError IoFault.system := by
  obtain ⟨spent, hlinks, hgoes⟩ := h.goes
  obtain ⟨horigin, -⟩ := properNames_pathOf h.path.2 hfront t.workingDirectory
  rw [FileTree.reach, if_neg (pathOf_ne_empty h.path.2 front), horigin,
    names_pathOf h.path.2 hfront hne, hlinks,
    hgoes.walk_append left hending (.inl hne)]

theorem Homes.canonical_pathOf (h : d.Homes home left t)
    (hfront : ∀ name ∈ front, IsEntryName name) :
    t.canonical (d.pathOf front) =
      if (d.pathOf front).toList.contains '\x00' then .error nulFault
      else (t.walk .spell left home front).mapError IoFault.system >>= Spot.place := by
  by_cases hne : front = []
  · subst hne
    have hnul : ¬ (d.pathOf []).toList.contains '\x00' = true := by
      rw [Bool.not_eq_true]
      exact h.path.1
    rw [if_neg hnul, walk]
    exact h.canonical
  · rw [FileTree.canonical, h.reach Ending.spell_ne_create hfront hne]
    split <;> rfl

/-- A walk that stays at a link in the end looks the last name up at the parent. -/
theorem Homes.walk_keep (h : d.Homes home left t) {parent : Location} {last : String}
    (hfront : ∀ name ∈ front, IsEntryName name) (hlast : IsEntryName last)
    (hparent : t.canonical (d.pathOf front) = .ok parent) :
    t.walk .keep left home (front ++ [last]) = t.walk .keep 0 parent [last] := by
  have hwalk : t.walk .spell left home front = .ok (.taken parent) := by
    rw [h.canonical_pathOf hfront] at hparent
    split at hparent
    · cases hparent
    · exact mapError_eq_ok_iff.mp (place_eq_ok_iff.mp hparent)
  have hwalks := walks_of_walk hwalk
  rw [← List.append_nil front] at hwalks
  obtain ⟨spent, left', goal, rfl, hgoes, hends⟩ := hwalks.cut fun _ => ⟨parent, rfl⟩
  obtain rfl := Spot.taken.inj hends.spot_of_nil
  rw [hgoes.walk_append left' Ending.keep_ne_create (.inl (List.cons_ne_nil last [])),
    walk_keep_last hlast.ordinary, walk_keep_last hlast.ordinary]

/-! ## Verdicts -/

/-- What is found out about a path. -/
inductive Verdict where
  /-- It leads to a place in the directory. -/
  | found (place : Location)
  /-- It leads to nothing, and its parent to a place in the directory. -/
  | missing (parent : Location)
  /-- It leads out of the directory, or to nothing and its parent leads out. -/
  | outside
  | failed (fault : IoFault)
  deriving DecidableEq

/-- The verdict on a path, judged by where it leads, or else by where its parent leads. -/
def verdict (d : ServedDirectory) (home : Location) (t : FileTree) (path : String) : Verdict :=
  match d.destination path t with
  | .error fault => .failed fault
  | .ok place =>
      if home <+: place then
        match t.canonical (d.resolve path) with
        | .ok _ => .found place
        | .error _ => .missing place
      else .outside

/-- What a verdict says of a tree. -/
inductive Judged (d : ServedDirectory) (home : Location) (t : FileTree) (path : String) :
    Verdict → Prop where
  | found {place} (hplace : t.canonical (d.resolve path) = .ok place) (hbelow : home <+: place) :
      Judged d home t path (.found place)
  | missing {parent} (hnothing : t.canonical (d.resolve path) = .error (.system .noEntry))
      (hsegments : segments path ≠ [])
      (hparent : t.canonical (d.pathOf (segments path).dropLast) = .ok parent)
      (hbelow : home <+: parent) : Judged d home t path (.missing parent)
  | outside {place} (hjudged : d.destination path t = .ok place) (hout : ¬ home <+: place) :
      Judged d home t path .outside
  | failed {fault} (hfails : d.destination path t = .error fault) :
      Judged d home t path (.failed fault)

theorem eq_noEntry_of_systemKind {e : SystemError} (h : IoFault.systemKind e = .notFound) :
    e = .noEntry := by
  unfold IoFault.systemKind at h
  by_cases hnone : e = .noEntry
  · exact hnone
  · rw [if_neg hnone] at h
    repeat' split at h
    all_goals cases h

/-- A path that is not found leads to no entry. -/
theorem eq_noEntry_of_notFound {file : String} {fault : IoFault}
    (h : t.canonical file = .error fault) (hkind : fault.kind = .notFound) :
    fault = .system .noEntry := by
  unfold FileTree.canonical FileTree.reach at h
  split at h
  · obtain rfl := Except.error.inj h
    cases hkind
  · split at h
    · exact (Except.error.inj h).symm
    · cases hwalk : t.walk .spell linkLimit (origin t.workingDirectory file) (names file) with
      | error e =>
          rw [hwalk] at h
          obtain rfl := Except.error.inj h
          rw [eq_noEntry_of_systemKind hkind]
      | ok spot =>
          rw [hwalk] at h
          cases spot with
          | taken place => cases h
          | free directory name => exact (Except.error.inj h).symm

theorem judged_verdict (d : ServedDirectory) (home : Location) (t : FileTree) (path : String) :
    Judged d home t path (d.verdict home t path) := by
  unfold verdict
  cases hjudged : d.destination path t with
  | error fault => exact .failed hjudged
  | ok place =>
      by_cases hbelow : home <+: place
      · simp only [if_pos hbelow]
        rw [destination] at hjudged
        cases hplace : t.canonical (d.resolve path) with
        | ok place' =>
            rw [hplace] at hjudged
            obtain rfl := Except.ok.inj hjudged
            exact .found hplace hbelow
        | error fault =>
            simp only [hplace] at hjudged
            split at hjudged
            · next hmissing =>
                obtain rfl := eq_noEntry_of_notFound hplace hmissing.1
                exact .missing hplace hmissing.2 hjudged hbelow
            · cases hjudged
      · simp only [if_neg hbelow]
        exact .outside hjudged hbelow

/-- What a verdict makes of a path: the path of the system that it stands for, or why not. -/
def Verdict.confined (path file : String) : Verdict → Except Failure String
  | found _ => .ok file
  | missing _ => .ok file
  | outside => .error (.outsideRoot path)
  | failed fault => .error fault.toFailure

theorem Judged.confine_eq {v : Verdict} (h : Judged d home t path v)
    (hhome : t.canonical d.root = .ok home) :
    d.confine path t = v.confined path (d.resolve path) := by
  cases h with
  | found hplace hbelow =>
      rw [confine_of_destination hhome (destination_of_canonical hplace), if_pos hbelow]
      rfl
  | missing hnothing hsegments hparent hbelow =>
      have hjudged := (destination_of_noEntry hnothing hsegments).trans hparent
      rw [confine_of_destination hhome hjudged, if_pos hbelow]
      rfl
  | outside hjudged hout =>
      rw [confine_of_destination hhome hjudged, if_neg hout]
      rfl
  | failed hfails =>
      rw [confine, hhome, hfails]
      rfl

/-! ## Two trees with the directory in common -/

/-- Two trees have the same served directory: its path leads there in both, over as many links, and
what is in it is the same. What lies outside may differ. -/
structure SameInside (d : ServedDirectory) (home : Location) (t u : FileTree) : Prop where
  homes : ∃ left, d.Homes home left t ∧ d.Homes home left u
  below : u.below home = t.below home

/-- Following a path, link by link, one looks at nothing but the directory, what is in it, and the
directories above it. -/
def Stays (home : Location) (t : FileTree) (path : String) : Prop :=
  ∀ links seen, links ≤ linkLimit → t.Visits links home (segments path) seen →
    seen <+: home ∨ home <+: seen

variable (h : SameInside d home t u)
include h

/-- The two trees have the same contents in the directory and above it. -/
theorem SameInside.content?_eq {place : Location} (hnear : place <+: home ∨ home <+: place) :
    t.content? place = u.content? place := by
  rcases hnear with habove | hbelow
  · obtain ⟨left, ht, hu⟩ := h.homes
    rw [isDirectory_iff.mp (ht.directory habove), isDirectory_iff.mp (hu.directory habove)]
  · rw [content?, content?, node?_of_below h.below hbelow]

theorem SameInside.verdict_of_stays (hstays : Stays home t path) :
    d.verdict home t path = d.verdict home u path := by
  obtain ⟨left, ht, hu⟩ := h.homes
  have hnames : ∀ name ∈ segments path, IsEntryName name := fun _ => isEntryName_of_mem_segments
  have hfront : ∀ front, front <+: segments path →
      t.canonical (d.pathOf front) = u.canonical (d.pathOf front) := by
    rintro front ⟨back, hsplit⟩
    have hnames' : ∀ name ∈ front, IsEntryName name := fun name hname =>
      hnames name (hsplit ▸ List.mem_append_left back hname)
    have hwalk : t.walk .spell left home front = u.walk .spell left home front := by
      apply walk_congr
      intro seen hseen
      have hwhole := hseen.append back
      rw [hsplit] at hwhole
      exact h.content?_eq (hstays left seen ht.left_le hwhole)
    rw [ht.canonical_pathOf hnames', hu.canonical_pathOf hnames', hwalk]
  have hresolve := hfront (segments path) (List.prefix_refl _)
  have hparent := hfront (segments path).dropLast (List.dropLast_prefix _)
  rw [verdict, verdict, destination, destination, resolve, hresolve, hparent]

/-- On a path with the same verdict in both trees, they confine it alike. -/
theorem SameInside.confine_eq (hsame : d.verdict home t path = d.verdict home u path) :
    d.confine path t = d.confine path u := by
  obtain ⟨left, ht, hu⟩ := h.homes
  rw [(judged_verdict d home t path).confine_eq ht.canonical,
    (judged_verdict d home u path).confine_eq hu.canonical, hsame]

/-- A last name is looked up alike below a parent that the trees have in common. -/
theorem SameInside.reach_keep_eq {parent : Location} (hsegments : segments path ≠ [])
    (ht : t.canonical (d.pathOf (segments path).dropLast) = .ok parent)
    (hu : u.canonical (d.pathOf (segments path).dropLast) = .ok parent) (hbelow : home <+: parent) :
    u.reach .keep (d.resolve path) = t.reach .keep (d.resolve path) := by
  obtain ⟨left, hhomes, hhomes'⟩ := h.homes
  have hnames : ∀ name ∈ segments path, IsEntryName name := fun _ => isEntryName_of_mem_segments
  have hfront : ∀ name ∈ (segments path).dropLast, IsEntryName name := fun name hname =>
    hnames name (List.dropLast_subset _ hname)
  have hlast := hnames _ (List.getLast_mem hsegments)
  have hkeep := Ending.keep_ne_create
  have hwalk : u.walk .keep left home (segments path) = t.walk .keep left home (segments path) := by
    rw [← List.dropLast_concat_getLast hsegments, hhomes.walk_keep hfront hlast ht,
      hhomes'.walk_keep hfront hlast hu, walk_keep_last hlast.ordinary,
      walk_keep_last hlast.ordinary, isDirectory_congr (h.content?_eq (.inr hbelow)),
      h.content?_eq (.inr (hbelow.trans (List.prefix_append ..)))]
  rw [resolve, hhomes.reach hkeep hnames hsegments, hhomes'.reach hkeep hnames hsegments, hwalk]

/-- A path that is let pass in both trees with the same verdict leads alike in both. -/
theorem SameInside.leadsAlike {file : String}
    (hsame : d.verdict home t path = d.verdict home u path)
    (hpasses : d.confine path t = .ok file) : LeadsAlike home t u (d.resolve path) := by
  obtain ⟨left, ht, hu⟩ := h.homes
  have hspells := spells_of_confine hpasses
  have hjt := judged_verdict d home t path
  have hju := judged_verdict d home u path
  rw [hjt.confine_eq ht.canonical] at hpasses
  rw [← hsame] at hju
  generalize d.verdict home t path = v at hjt hju hpasses
  cases hjt with
  | outside => cases hpasses
  | failed => cases hpasses
  | found htplace hbelow =>
      cases hju with
      | found huplace =>
          refine ⟨huplace.trans htplace.symm, ?_, hspells, ?_⟩
          · intro place hplace
            obtain rfl := Except.ok.inj (htplace.symm.trans hplace)
            exact hbelow
          · rw [isFree_of_canonical htplace, isFree_of_canonical huplace]
  | missing htnothing hsegments htparent hbelow =>
      cases hju with
      | missing hunothing _ huparent =>
          refine ⟨hunothing.trans htnothing.symm, ?_, hspells, ?_⟩
          · intro place hplace
            cases htnothing.symm.trans hplace
          · rw [h.reach_keep_eq hsegments htparent huparent hbelow]

end ServedDirectory

end FtpControl

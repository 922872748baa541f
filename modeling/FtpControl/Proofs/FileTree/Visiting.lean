import FtpControl.Proofs.FileTree.Changing

/-!
# Places that a walk comes by

A walk looks at the places on its way, and at the targets of links, and at nothing else: in two
trees with the same contents there, it ends alike, in an error as well. What is below a directory
that two trees have in common is read alike from both.
-/

namespace FtpControl

/-- Whether a walk has ended at a free name. -/
def Spot.isFree : Spot → Bool
  | taken _ => false
  | free .. => true

namespace FileTree

/-- The places that a walk looks at which follows every link. -/
inductive Visits (t : FileTree) : Nat → Location → List String → Location → Prop where
  | here {links place name rest} : Visits t links place (name :: rest) place
  | entry {links place name rest} (hlook : t.LooksUp .follow place name rest) :
      Visits t links place (name :: rest) (place ++ [name])
  | skip {links place name rest seen} (hdir : t.isDirectory place = true)
      (hname : name = "" ∨ name = ".") (h : Visits t links place rest seen) :
      Visits t links place (name :: rest) seen
  | up {links place rest seen} (hdir : t.isDirectory place = true)
      (h : Visits t links place.dropLast rest seen) : Visits t links place (".." :: rest) seen
  | follow {links place name rest node target seen} (hlook : t.LooksUp .follow place name rest)
      (hnode : t.node? (place ++ [name]) = some node) (hlink : node.content = .link target)
      (htarget : target ≠ "")
      (h : Visits t links (origin place target) (names target ++ rest) seen) :
      Visits t (links + 1) place (name :: rest) seen
  | enter {links place name rest node seen} (hlook : t.LooksUp .follow place name rest)
      (hnode : t.node? (place ++ [name]) = some node)
      (hplain : ∀ target, node.content ≠ .link target)
      (h : Visits t links (place ++ [name]) rest seen) : Visits t links place (name :: rest) seen

variable {t u : FileTree} {ending : Ending} {links : Nat} {place : Location}

theorem isDirectory_iff : t.isDirectory place = true ↔ t.content? place = some .directory := by
  unfold isDirectory content?
  cases t.node? place <;> simp

theorem isDirectory_congr (h : t.content? place = u.content? place) :
    u.isDirectory place = t.isDirectory place := by
  rw [Bool.eq_iff_iff, isDirectory_iff, isDirectory_iff, h]

/-- A walk goes further along more names. -/
theorem Visits.append {front : List String} {seen : Location} (h : t.Visits links place front seen)
    (back : List String) : t.Visits links place (front ++ back) seen := by
  induction h with
  | here => exact .here
  | entry hlook => exact .entry hlook.follow
  | skip hdir hname _ ih => exact .skip hdir hname ih
  | up hdir _ ih => exact .up hdir ih
  | follow hlook hnode hlink htarget _ ih =>
      rw [List.append_assoc] at ih
      exact .follow hlook.follow hnode hlink htarget ih
  | enter hlook hnode hplain _ ih => exact .enter hlook.follow hnode hplain ih

theorem LooksUp.congr {name : String} {rest : List String} (h : t.LooksUp ending place name rest)
    (hhere : t.content? place = u.content? place) : u.LooksUp ending place name rest :=
  ⟨(isDirectory_congr hhere).trans h.directory, h.ordinary, h.makes, h.near, h.short⟩

theorem node?_of_content?_eq {node : Node} (h : t.content? place = u.content? place)
    (hnode : t.node? place = some node) :
    ∃ node', u.node? place = some node' ∧ node'.content = node.content := by
  rw [content?, hnode] at h
  exact Option.map_eq_some_iff.mp h.symm

theorem node?_of_content?_eq_none (h : t.content? place = u.content? place)
    (hnode : t.node? place = none) : u.node? place = none := by
  rw [content?, hnode] at h
  exact Option.map_eq_none_iff.mp h.symm

theorem Refuses.congr {name : String} {rest : List String} {e : SystemError}
    (h : t.Refuses ending links place name rest e)
    (hsame : ∀ seen, t.Visits links place (name :: rest) seen → t.content? seen = u.content? seen) :
    u.Refuses ending links place name rest e := by
  have hhere := hsame _ .here
  have hdir' := isDirectory_congr hhere
  cases h with
  | far hspell hfar => exact .far hspell hfar
  | noDirectory hnear hdir => exact .noDirectory hnear (hdir'.trans hdir)
  | makes hdir hname hmakes => exact .makes (hdir'.trans hdir) hname hmakes
  | long hnear hdir hname hmakes hlong => exact .long hnear (hdir'.trans hdir) hname hmakes hlong
  | missing hlook hnode hrest =>
      have hnode' := node?_of_content?_eq_none (hsame _ (.entry hlook.follow)) hnode
      exact .missing (hlook.congr hhere) hnode' hrest
  | blank hlook hnode hlink hgoes =>
      obtain ⟨_, hnode', hcontent⟩ := node?_of_content?_eq (hsame _ (.entry hlook.follow)) hnode
      exact .blank (hlook.congr hhere) hnode' (hcontent.trans hlink) hgoes
  | spent hlook hnode hlink hgoes htarget =>
      obtain ⟨_, hnode', hcontent⟩ := node?_of_content?_eq (hsame _ (.entry hlook.follow)) hnode
      exact .spent (hlook.congr hhere) hnode' (hcontent.trans hlink) hgoes htarget

/-- In trees with the same contents at the places that a walk looks at, it ends alike. -/
theorem walk_congr {names : List String}
    (h : ∀ seen, t.Visits links place names seen → t.content? seen = u.content? seen) :
    t.walk ending links place names = u.walk ending links place names := by
  induction links, place, names using t.walk_induction ending with
  | done => rw [walk, walk]
  | refused hrefuses => rw [hrefuses.walk_eq, (hrefuses.congr h).walk_eq]
  | skip hdir hname ih =>
      rw [walk_skip hdir hname, walk_skip ((isDirectory_congr (h _ .here)).trans hdir) hname]
      exact ih fun seen hseen => h seen (.skip hdir hname hseen)
  | up hdir ih =>
      rw [walk_up hdir, walk_up ((isDirectory_congr (h _ .here)).trans hdir)]
      exact ih fun seen hseen => h seen (.up hdir hseen)
  | missing hlook hnode =>
      have hnode' := node?_of_content?_eq_none (h _ (.entry hlook.follow)) hnode
      rw [hlook.walk_of_none hnode, (hlook.congr (h _ .here)).walk_of_none hnode']
  | kept hlook hnode hlink hkeep =>
      subst hkeep
      obtain ⟨_, hnode', hcontent⟩ := node?_of_content?_eq (h _ (.entry hlook.follow)) hnode
      rw [hlook.walk_of_kept hnode hlink,
        (hlook.congr (h _ .here)).walk_of_kept hnode' (hcontent.trans hlink)]
  | follow hlook hnode hlink hgoes htarget ih =>
      obtain ⟨_, hnode', hcontent⟩ := node?_of_content?_eq (h _ (.entry hlook.follow)) hnode
      rw [hlook.walk_of_link hnode hlink hgoes htarget,
        (hlook.congr (h _ .here)).walk_of_link hnode' (hcontent.trans hlink) hgoes htarget]
      exact ih fun seen hseen => h seen (.follow hlook.follow hnode hlink htarget hseen)
  | enter hlook hnode hplain ih =>
      obtain ⟨_, hnode', hcontent⟩ := node?_of_content?_eq (h _ (.entry hlook.follow)) hnode
      have hplain' := hplain
      rw [← hcontent] at hplain'
      rw [hlook.walk_of_plain hnode hplain,
        (hlook.congr (h _ .here)).walk_of_plain hnode' hplain']
      exact ih fun seen hseen => h seen (.enter hlook.follow hnode hplain hseen)

/-! ## Last names -/

/-- A walk that stays at a link looks at its last name once. -/
theorem walk_keep_last {name : String} (hname : name ≠ "" ∧ name ≠ "." ∧ name ≠ "..") (links : Nat)
    (place : Location) :
    t.walk .keep links place [name] =
      if !t.isDirectory place then .error .notDirectory
      else if nameLimit < name.utf8ByteSize then .error .nameTooLong
      else if (t.content? (place ++ [name])).isNone then .ok (.free place name)
      else .ok (.taken (place ++ [name])) := by
  obtain ⟨hempty, hdot, hup⟩ := hname
  rw [walk, content?]
  cases hnode : t.node? (place ++ [name]) with
  | none => simp [hempty, hdot, hup]
  | some node =>
      obtain ⟨content, permissions, modified⟩ := node
      cases content <;> simp [hempty, hdot, hup, walk]

/-- Where a walk comes to something, it does so as well if it stays at a link in the end. -/
theorem Walks.keep_of_taken {names : List String} {goal : Location}
    (h : t.Walks .follow links place names (.taken goal)) :
    ∃ last, t.Walks .keep links place names (.taken last) := by
  generalize hspot : Spot.taken goal = spot at h
  induction h with
  | done => exact ⟨_, .done⟩
  | skip hdir hname _ ih =>
      obtain ⟨last, hlast⟩ := ih hspot
      exact ⟨last, .skip hdir hname hlast⟩
  | up hdir _ ih =>
      obtain ⟨last, hlast⟩ := ih hspot
      exact ⟨last, .up hdir hlast⟩
  | missing => cases hspot
  | kept _ _ _ hkeep => cases hkeep
  | @follow links place name rest spot node target hlook hnode hlink _ htarget _ ih =>
      by_cases hrest : rest = []
      · subst hrest
        exact ⟨_, .kept hlook.keep hnode hlink rfl⟩
      · obtain ⟨last, hlast⟩ := ih hspot
        exact ⟨last, .follow hlook.keep hnode hlink (by simp [hrest]) htarget hlast⟩
  | enter hlook hnode hplain _ ih =>
      obtain ⟨last, hlast⟩ := ih hspot
      exact ⟨last, .enter hlook.keep hnode hplain hlast⟩

/-! ## Trees with the same contents -/

/-- Whether two trees differ in permissions and times alone. -/
structure SameContents (t u : FileTree) : Prop where
  workingDirectory : u.workingDirectory = t.workingDirectory
  content : ∀ place, u.content? place = t.content? place

namespace SameContents

variable (h : SameContents t u)
include h

theorem reach (ending : Ending) (path : String) : u.reach ending path = t.reach ending path := by
  have hwalk : u.walk ending linkLimit (origin u.workingDirectory path) (names path) =
      t.walk ending linkLimit (origin t.workingDirectory path) (names path) := by
    rw [h.workingDirectory]
    exact walk_congr fun seen _ => h.content seen
  rw [FileTree.reach, FileTree.reach, hwalk]

theorem canonical (path : String) : u.canonical path = t.canonical path := by
  rw [FileTree.canonical, FileTree.canonical, h.reach]

theorem locate (path : String) : u.locate path = t.locate path := by
  rw [FileTree.locate, FileTree.locate, reachWithin, reachWithin, h.reach]

end SameContents

/-! ## Trees with a directory in common -/

/-- A path leads alike in two trees: nowhere for the same cause, or to the same place in a directory
or below, and all places on the way can be spelled out; and its last name, a link or not, is free in
both trees or taken in both. -/
structure LeadsAlike (home : Location) (t u : FileTree) (path : String) : Prop where
  canonical : u.canonical path = t.canonical path
  inside : ∀ place, t.canonical path = .ok place → home <+: place
  spells : t.Spells path
  kept : (u.reach .keep path).map Spot.isFree = (t.reach .keep path).map Spot.isFree

/-- A path that leads to something has a last name that is taken. -/
theorem isFree_of_canonical {path : String} (h : t.canonical path = .ok place) :
    (t.reach .keep path).map Spot.isFree = .ok false := by
  obtain ⟨hpath, hwalks⟩ := (canonical_eq_ok_iff.mp h).follow Ending.spell_ne_keep
  obtain ⟨last, hlast⟩ := hwalks.keep_of_taken
  rw [reach_eq_ok_iff.mpr ⟨hpath, hlast⟩]
  rfl

theorem Spells.locate_eq {path : String} (h : t.Spells path) :
    t.locate path =
      if pathLimit < path.utf8ByteSize then .error (.system .nameTooLong)
      else t.canonical path := by
  rw [locate, reachWithin, canonical, h.reach_eq]
  split <;> rfl

section

variable {home : Location} {path : String}

/-- What is read through a handle in a common directory is the same in both trees. -/
theorem read_of_below (hcommon : u.below home = t.below home) {handle : FileHandle}
    (hbelow : home <+: handle.place) (most : Nat) : u.read handle most = t.read handle most := by
  rw [read, read, node?_of_below hcommon hbelow]

theorem openNode_of_below (hcommon : u.below home = t.below home) (hbelow : home <+: place)
    (mode : OpenMode) :
    (u.openNode place mode).map Prod.fst = (t.openNode place mode).map Prod.fst := by
  unfold openNode
  rw [node?_of_below hcommon hbelow]
  cases t.node? place with
  | none => rfl
  | some node => cases hcontent : node.content <;> simp only [hcontent] <;> split <;> rfl

namespace LeadsAlike

variable (h : LeadsAlike home t u path)
include h

/-- What is done at the place that a path leads to is the same if it is the same at each place in
the directory. -/
theorem bind_locate {α β γ : Type} {act : Location → Except IoFault α}
    {act' : Location → Except IoFault β} {f : α → γ} {g : β → γ}
    (hact : ∀ place, home <+: place → (act' place).map g = (act place).map f) :
    (u.locate path >>= act').map g = (t.locate path >>= act).map f := by
  have hspells' : u.Spells path := by
    rw [Spells, h.canonical]
    exact h.spells
  rw [hspells'.locate_eq, h.canonical, ← h.spells.locate_eq]
  cases hplace : t.locate path with
  | error fault => rfl
  | ok place =>
      have hcanonical := canonical_eq_ok_iff.mpr ((leads_of_locate hplace).spell h.spells)
      exact hact place (h.inside place hcanonical)

theorem symlink {γ : Type} (target : String) (answer : γ) :
    (u.symlink target path).map (fun _ => answer) =
      (t.symlink target path).map (fun _ => answer) := by
  have hkept := h.kept
  unfold FileTree.symlink reachWithin
  by_cases hlong : pathLimit < target.utf8ByteSize
  · simp only [hlong, if_true]
  · by_cases hlink : pathLimit < path.utf8ByteSize
    · simp only [hlong, hlink, if_true, if_false]
      rfl
    · simp only [hlong, hlink, if_false]
      cases hu : u.reach .keep path <;> cases ht : t.reach .keep path <;>
        simp only [hu, ht, Except.map, reduceCtorEq, Except.error.injEq, Except.ok.injEq] at hkept
      · rw [hkept]
        rfl
      · rename_i spot' spot
        cases spot <;> cases spot' <;> first | rfl | cases hkept

variable (hcommon : u.below home = t.below home)
include hcommon

/-- What is done to the node that a path leads to. -/
theorem bind_find {α β γ : Type} {act : Location → Except IoFault α}
    {act' : Location → Except IoFault β} {f : α → γ} {g : β → γ}
    (hact : ∀ place, (act' place).map g = (act place).map f) :
    (u.find path >>= act').map g = (t.find path >>= act).map f := by
  have hbind : ∀ {δ : Type} (v : FileTree) (next : Location → Except IoFault δ),
      (v.find path >>= next) = v.locate path >>= fun place =>
        if (v.node? place).isSome then next place else .error (.system .noEntry) := by
    intro δ v next
    unfold find
    cases v.locate path with
    | error fault => rfl
    | ok place =>
        by_cases hthere : (v.node? place).isSome = true <;> simp [bind, Except.bind, hthere]
  rw [hbind, hbind]
  apply h.bind_locate
  intro place hbelow
  rw [node?_of_below hcommon hbelow]
  split
  · exact hact place
  · rfl

theorem chmod {γ : Type} (permissions : Nat) (answer : γ) :
    (u.chmod path permissions).map (fun _ => answer) =
      (t.chmod path permissions).map (fun _ => answer) :=
  h.bind_find hcommon fun _ => rfl

theorem chown {γ : Type} (user : Nat) (group : Option Nat) (answer : γ) :
    (u.chown path user group).map (fun _ => answer) =
      (t.chown path user group).map (fun _ => answer) := by
  apply h.bind_find hcommon
  intro place
  split <;> rfl

theorem stat {γ : Type} (f : Node → γ) : (u.stat path).map f = (t.stat path).map f := by
  apply h.bind_locate
  intro place hbelow
  rw [node?_of_below hcommon hbelow]

theorem list {γ : Type} (f : List (String × Node) → γ) :
    (u.list path).map f = (t.list path).map f := by
  apply h.bind_locate
  intro place hbelow
  have hdir : u.isDirectory place = t.isDirectory place := by
    rw [isDirectory, node?_of_below hcommon hbelow]
    rfl
  rw [hdir, children_of_below hcommon hbelow]

theorem openFile {mode : OpenMode} (hcreate : mode.create = false) (permissions : Nat) :
    (u.openFile path mode permissions).map Prod.fst =
      (t.openFile path mode permissions).map Prod.fst := by
  rw [openFile_eq hcreate, openFile_eq hcreate]
  cases checkMode mode with
  | error fault => rfl
  | ok _ => exact h.bind_locate fun place hbelow => openNode_of_below hcommon hbelow mode

end LeadsAlike

end

end FileTree

end FtpControl

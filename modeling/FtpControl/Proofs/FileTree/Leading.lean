import FtpControl.FileTree.Access
import FtpControl.Proofs.FileTree.Walking

/-!
# Where paths lead

A path leads where a walk along its names ends, and there is one such place at most. It leads to the
same place in a tree that has grown. Where it leads with all places on the way spelled out, it leads
without that, too; and the other way round, unless one of them is too far from the top.
-/

namespace FtpControl

namespace FileTree

variable {t u : FileTree} {ending : Ending} {links : Nat} {place goal : Location}

/-! ## Trees that grow -/

/-- Whether two contents look the same to a walk. -/
inductive Alike : Content → Content → Prop where
  | same (content : Content) : Alike content content
  | files (data data' : List UInt8) : Alike (.file data) (.file data')

theorem Alike.link_iff {content content' : Content} (h : Alike content content')
    (target : String) : content' = .link target ↔ content = .link target := by
  cases h <;> simp

theorem Alike.directory_iff {content content' : Content} (h : Alike content content') :
    content' = .directory ↔ content = .directory := by
  cases h <;> simp

/-- Whether a tree has all that another one has, with files that may hold something else. -/
structure Grows (t u : FileTree) : Prop where
  workingDirectory : u.workingDirectory = t.workingDirectory
  node : ∀ {place node}, t.node? place = some node →
    ∃ node', u.node? place = some node' ∧ Alike node.content node'.content

theorem Grows.isDirectory (h : Grows t u) (hdir : t.isDirectory place = true) :
    u.isDirectory place = true := by
  unfold FileTree.isDirectory at hdir ⊢
  cases hnode : t.node? place with
  | none => simp [hnode] at hdir
  | some node =>
      obtain ⟨node', hnode', halike⟩ := h.node hnode
      rw [hnode, decide_eq_true_eq] at hdir
      rw [hnode', decide_eq_true_eq]
      exact halike.directory_iff.mpr hdir

theorem Grows.looksUp (h : Grows t u) {name : String} {rest : List String}
    (hlook : t.LooksUp ending place name rest) : u.LooksUp ending place name rest :=
  ⟨h.isDirectory hlook.directory, hlook.ordinary, hlook.makes, hlook.near, hlook.short⟩

/-- A walk that ends at something goes the same way when the tree has grown. -/
theorem Walks.grow {names : List String} {taken : Location}
    (h : t.Walks ending links place names (.taken taken)) (hgrows : Grows t u) :
    u.Walks ending links place names (.taken taken) := by
  generalize hspot : Spot.taken taken = spot at h
  induction h with
  | done => exact .done
  | skip hdir hname _ ih => exact .skip (hgrows.isDirectory hdir) hname (ih hspot)
  | up hdir _ ih => exact .up (hgrows.isDirectory hdir) (ih hspot)
  | missing => simp at hspot
  | kept hlook hnode hlink hkeep =>
      obtain ⟨node', hnode', halike⟩ := hgrows.node hnode
      exact .kept (hgrows.looksUp hlook) hnode' ((halike.link_iff _).mpr hlink) hkeep
  | follow hlook hnode hlink hgoes htarget _ ih =>
      obtain ⟨node', hnode', halike⟩ := hgrows.node hnode
      exact .follow (hgrows.looksUp hlook) hnode' ((halike.link_iff _).mpr hlink) hgoes htarget
        (ih hspot)
  | enter hlook hnode hplain _ ih =>
      obtain ⟨node', hnode', halike⟩ := hgrows.node hnode
      refine .enter (hgrows.looksUp hlook) hnode' ?_ (ih hspot)
      intro target hlink
      exact hplain target ((halike.link_iff target).mp hlink)

theorem Goes.grow {spent : Nat} {names : List String} (h : t.Goes spent place names goal)
    (hgrows : Grows t u) : u.Goes spent place names goal := by
  induction h with
  | done => exact .done
  | skip hdir hname _ ih => exact .skip (hgrows.isDirectory hdir) hname ih
  | up hdir _ ih => exact .up (hgrows.isDirectory hdir) ih
  | follow hlook hnode hlink htarget _ ih =>
      obtain ⟨node', hnode', halike⟩ := hgrows.node hnode
      exact .follow (hgrows.looksUp hlook) hnode' ((halike.link_iff _).mpr hlink) htarget ih
  | enter hlook hnode hplain _ ih =>
      obtain ⟨node', hnode', halike⟩ := hgrows.node hnode
      refine .enter (hgrows.looksUp hlook) hnode' ?_ ih
      intro target hlink
      exact hplain target ((halike.link_iff target).mp hlink)

/-! ## Places that are there -/

/-- Whether there is something at a place, and at every place above it. -/
def Stands (t : FileTree) (place : Location) : Prop :=
  ∀ above, above <+: place → (t.node? above).isSome = true

theorem Stands.append {name : String} {node : Node} (h : t.Stands place)
    (hnode : t.node? (place ++ [name]) = some node) : t.Stands (place ++ [name]) := by
  intro above habove
  rcases List.prefix_concat_iff.mp habove with rfl | habove
  · rw [hnode]
    rfl
  · exact h above habove

theorem stands_top : t.Stands [] := by
  intro above habove
  obtain rfl := List.prefix_nil.mp habove
  rfl

theorem stands_origin (h : t.Stands place) (path : String) : t.Stands (origin place path) := by
  unfold origin
  split
  · exact stands_top
  · exact h

/-- A walk from a place that is there ends at one that is there, if not at a free name. -/
theorem Walks.stands {names : List String} {taken : Location}
    (h : t.Walks ending links place names (.taken taken)) (hstands : t.Stands place) :
    t.Stands taken := by
  generalize hspot : Spot.taken taken = spot at h
  induction h with
  | done =>
      obtain rfl := Spot.taken.inj hspot
      exact hstands
  | skip _ _ _ ih => exact ih hstands hspot
  | up _ _ ih =>
      refine ih (fun above habove => ?_) hspot
      exact hstands above (habove.trans (List.dropLast_prefix _))
  | missing => cases hspot
  | kept _ hnode =>
      obtain rfl := Spot.taken.inj hspot
      exact hstands.append hnode
  | follow _ _ _ _ _ _ ih => exact ih (stands_origin hstands _) hspot
  | enter _ hnode _ _ ih => exact ih (hstands.append hnode) hspot

/-! ## Where paths lead -/

/-- Whether a path can be given to the system. -/
def IsPath (path : String) : Prop := path.toList.contains '\x00' = false ∧ path ≠ ""

/-- The names of a path are walked along from its origin. -/
def Leads (t : FileTree) (ending : Ending) (path : String) (spot : Spot) : Prop :=
  IsPath path ∧
    t.Walks ending linkLimit (origin t.workingDirectory path) (names path) spot

theorem reach_eq_ok_iff {path : String} {spot : Spot} :
    t.reach ending path = .ok spot ↔ t.Leads ending path spot := by
  rw [reach, Leads, IsPath]
  by_cases hnul : path.toList.contains '\x00' = true
  · rw [if_pos hnul, hnul]
    simp
  · rw [if_neg hnul]
    by_cases hempty : path = ""
    · simp [hempty]
    · rw [if_neg hempty, mapError_eq_ok_iff]
      constructor
      · intro hwalk
        exact ⟨⟨Bool.eq_false_iff.mpr hnul, hempty⟩, walks_of_walk hwalk⟩
      · rintro ⟨-, hwalks⟩
        exact walk_of_walks hwalks

theorem Leads.follow {path : String} {spot : Spot} (h : t.Leads ending path spot)
    (hending : ending ≠ .keep) : t.Leads .follow path spot :=
  ⟨h.1, h.2.follows fun hkeep => absurd hkeep hending⟩

theorem Leads.follow_of_free {path : String} {directory : Location} {name : String}
    (h : t.Leads .keep path (.free directory name)) : t.Leads .follow path (.free directory name) :=
  ⟨h.1, h.2.follow_of_free⟩

/-- A path leads to one spot. -/
theorem Leads.eq {path : String} {spot spot' : Spot} (h : t.Leads ending path spot)
    (h' : t.Leads ending path spot') : spot = spot' :=
  Except.ok.inj ((reach_eq_ok_iff.mpr h).symm.trans (reach_eq_ok_iff.mpr h'))

theorem place_eq_ok_iff {answer : Except IoFault Spot} :
    (answer >>= Spot.place) = .ok place ↔ answer = .ok (.taken place) := by
  rcases answer with fault | ⟨place' | ⟨directory, name⟩⟩ <;>
    simp [bind, Except.bind, Spot.place]

theorem canonical_eq_ok_iff {path : String} :
    t.canonical path = .ok place ↔ t.Leads .spell path (.taken place) := by
  rw [← reach_eq_ok_iff, ← place_eq_ok_iff]
  rfl

theorem canonical_eq {path : String} (hpath : IsPath path) :
    t.canonical path =
      ((t.walk .spell linkLimit (origin t.workingDirectory path) (names path)).mapError
        IoFault.system >>= Spot.place) := by
  have hnul : ¬ path.toList.contains '\x00' = true := by
    rw [Bool.not_eq_true]
    exact hpath.1
  rw [canonical, reach, if_neg hnul, if_neg hpath.2]

/-- What a system call reaches is there for a walk without a bound on the path. -/
theorem leads_of_reachWithin {path : String} {spot : Spot}
    (h : t.reachWithin ending path = .ok spot) : t.Leads ending path spot := by
  unfold reachWithin at h
  split at h
  · simp at h
  · exact reach_eq_ok_iff.mp h

theorem short_of_reachWithin {path : String} {spot : Spot}
    (h : t.reachWithin ending path = .ok spot) : path.utf8ByteSize ≤ pathLimit := by
  unfold reachWithin at h
  split at h
  · cases h
  · next hlong => exact Nat.le_of_not_lt hlong

theorem leads_of_locate {path : String} (h : t.locate path = .ok place) :
    t.Leads .follow path (.taken place) :=
  leads_of_reachWithin (place_eq_ok_iff.mp h)

theorem short_of_locate {path : String} (h : t.locate path = .ok place) :
    path.utf8ByteSize ≤ pathLimit :=
  short_of_reachWithin (place_eq_ok_iff.mp h)

/-! ## Paths that are spelled out -/

/-- Whether no place to which a path leads on its way has too long a path from the top. -/
def Spells (t : FileTree) (path : String) : Prop :=
  t.canonical path ≠ .error (.system .nameTooLong)

/-- Spelling out the places on the way makes no difference to a path that it does not stop. -/
theorem Spells.reach_eq {path : String} (h : t.Spells path) :
    t.reach .spell path = t.reach .follow path := by
  unfold Spells canonical reach at h
  unfold reach
  rcases t.walk_spell_eq_or linkLimit (origin t.workingDirectory path) (names path) with
    hfar | hsame
  · rw [hfar] at h
    repeat' split at h
    · next hnul => rw [if_pos hnul, if_pos hnul]
    · next hnul hempty => rw [if_neg hnul, if_neg hnul, if_pos hempty, if_pos hempty]
    · exact absurd rfl h
  · rw [hsame]

theorem Leads.spell {path : String} {spot : Spot} (h : t.Leads .follow path spot)
    (hspells : t.Spells path) : t.Leads .spell path spot := by
  rwa [← reach_eq_ok_iff, hspells.reach_eq, reach_eq_ok_iff]

theorem spells_of_canonical {path : String} (h : t.canonical path = .ok place) : t.Spells path := by
  rw [Spells, h]
  exact nofun

theorem canonical_of_free {path name : String} {directory : Location}
    (h : t.Leads .spell path (.free directory name)) :
    t.canonical path = .error (.system .noEntry) := by
  rw [canonical, reach_eq_ok_iff.mpr h]
  rfl

/-- A path leads to the same place when the tree has grown. -/
theorem Grows.canonical (h : Grows t u) {path : String} (hplace : t.canonical path = .ok place) :
    u.canonical path = .ok place := by
  rw [canonical_eq_ok_iff] at hplace ⊢
  obtain ⟨hpath, hwalks⟩ := hplace
  refine ⟨hpath, ?_⟩
  rw [h.workingDirectory]
  exact hwalks.grow h

end FileTree

end FtpControl

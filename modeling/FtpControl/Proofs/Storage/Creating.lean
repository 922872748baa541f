import Mathlib
import FtpControl.Proofs.Storage.Confining

/-!
# Opening files that may have to be made

A path that leads to nothing is judged by the directory its last name is looked up in, while a file
is made where the links lead. The two differ at one kind of path: its last name is a link in the
directory, and the link leads to a free name outside. A file is made there. On every other path a
request to open a file, and to make it if it is missing, stays inside, and no request opens or
changes anything outside that was there before. A path that leads out over places too far down to
be spelled out is refused as well, for another cause.
-/

namespace FtpControl

namespace ServedDirectory

open FileTree

variable {d : ServedDirectory} {t u : FileTree} {home : Location} {path : String} {mode : OpenMode}
  {permissions offset : Nat} {answer : Except Failure FileHandle}

/-- Opening stays inside a directory: nothing else changes or is opened, and a path that leads
elsewhere, to something or to a free name, is refused as such. -/
structure StaysInside (d : ServedDirectory) (home : Location) (t : FileTree) (path : String)
    (answer : Except Failure FileHandle) (u : FileTree) : Prop where
  changes : Changes home t u
  opened : ∀ handle, answer = .ok handle → home <+: handle.place
  refused : ∀ spot, t.Leads .follow (d.resolve path) spot → ¬ home <+: spot.location →
    answer = .error (.outsideRoot path) ∧ u = t

/-- A path dangles out of a directory: its last name is a link that is in the directory, or below,
and leads to a free name outside, where all places on the way can be spelled out. -/
inductive DanglesOut (d : ServedDirectory) (home : Location) (t : FileTree) (path : String) : Prop
  | intro {holder directory : Location} {last name target : String} {node : Node}
      (hbelow : home <+: holder)
      (hkept : t.Leads .keep (d.resolve path) (.taken (holder ++ [last])))
      (hnode : t.node? (holder ++ [last]) = some node) (hlink : node.content = .link target)
      (hfree : t.Leads .spell (d.resolve path) (.free directory name))
      (hout : ¬ home <+: directory ++ [name])

/-- A path strays too far: it leads out of a directory, and some place on the way has too long a
path from the top. -/
structure StraysTooFar (d : ServedDirectory) (home : Location) (t : FileTree) (path : String) :
    Prop where
  far : t.canonical (d.resolve path) = .error (.system .nameTooLong)
  out : ∃ spot, t.Leads .follow (d.resolve path) spot ∧ ¬ home <+: spot.location

/-- What is outside a directory is neither changed nor opened; a file may be made there. -/
structure SparesOutside (home : Location) (t : FileTree) (answer : Except Failure FileHandle)
    (u : FileTree) : Prop where
  node : ∀ place node, ¬ home <+: place → t.node? place = some node → u.node? place = some node
  opened : ∀ handle, answer = .ok handle → ¬ home <+: handle.place →
    t.node? handle.place = none

/-! ## Judging by the parent -/

/-- A path that is let pass by the directory of its last name, and leads to a free name outside. -/
theorem danglesOut_of_free {judged directory : Location} {name : String}
    (hhome : t.canonical d.root = .ok home) (hjudged : d.destination path t = .ok judged)
    (hbelow : home <+: judged) (hfree : t.Leads .spell (d.resolve path) (.free directory name))
    (hout : ¬ home <+: directory ++ [name]) : DanglesOut d home t path := by
  obtain ⟨judged', last, hjudged', hends⟩ := judged_of_free hhome hfree
  obtain rfl := Except.ok.inj (hjudged.symm.trans hjudged')
  rcases hends with ⟨rfl, -⟩ | ⟨node, target, hnode, hlink, hkept⟩
  · exact absurd (hbelow.trans (List.prefix_append ..)) hout
  · exact .intro hbelow hkept hnode hlink hfree hout

/-- A path that leads outside, and does not dangle, is refused. -/
theorem confine_of_out {spot : Spot} (hhome : t.canonical d.root = .ok home)
    (hspot : t.Leads .spell (d.resolve path) spot) (hout : ¬ home <+: spot.location)
    (hnot : ¬ DanglesOut d home t path) : d.confine path t = .error (.outsideRoot path) := by
  have hjudged : ∃ judged, d.destination path t = .ok judged ∧ ¬ home <+: judged := by
    cases spot with
    | taken place =>
        have hplace := canonical_eq_ok_iff.mpr hspot
        exact ⟨place, destination_of_canonical hplace, hout⟩
    | free directory name =>
        obtain ⟨judged, last, hjudged, -⟩ := judged_of_free hhome hspot
        exact ⟨judged, hjudged, fun hbelow =>
          hnot (danglesOut_of_free hhome hjudged hbelow hspot hout)⟩
  obtain ⟨judged, hjudged, hout⟩ := hjudged
  rw [confine_of_destination hhome hjudged, if_neg hout]

/-- A path that strays too far is refused for its length. -/
theorem confine_of_straysTooFar (hhome : t.canonical d.root = .ok home)
    (h : StraysTooFar d home t path) :
    d.confine path t = .error (IoFault.system .nameTooLong).toFailure := by
  have hjudged : d.destination path t = .error (.system .nameTooLong) := by
    have hkind : (IoFault.system .nameTooLong).kind ≠ .notFound := by decide
    rw [destination, h.far]
    simp only [hkind, false_and, if_false]
  rw [confine, hhome, hjudged]
  rfl

/-- A path that dangles out is let pass. -/
theorem confine_of_danglesOut (hhome : t.canonical d.root = .ok home)
    (h : DanglesOut d home t path) : d.confine path t = .ok (d.resolve path) := by
  obtain ⟨hbelow, hkept, -, -, hfree, -⟩ := h
  obtain ⟨judged, last, hjudged, hends⟩ := judged_of_free hhome hfree
  rw [confine_of_destination hhome hjudged, if_pos]
  rcases hends with ⟨-, hkept'⟩ | ⟨_, _, -, -, hkept'⟩
  · cases hkept.eq hkept'
  · obtain ⟨rfl, -⟩ := List.append_inj' (Spot.taken.inj (hkept.eq hkept')) rfl
    exact hbelow

/-! ## Opening -/

/-- How a request to open a path ends that may make a file. -/
inductive Opening (d : ServedDirectory) (path : String) (mode : OpenMode) (t : FileTree) :
    Except Failure FileHandle → FileTree → Prop
  | refused {f : Failure} (hconfine : d.confine path t = .error f) :
      Opening d path mode t (.error f) t
  | failed (hconfine : d.confine path t = .ok (d.resolve path)) (fault : IoFault) :
      Opening d path mode t (.error fault.toFailure) t
  | opened {permissions : Nat} {handle : FileHandle} {u : FileTree}
      (hconfine : d.confine path t = .ok (d.resolve path))
      (hopens : t.OpensOrMakes (d.resolve path) mode permissions handle u) (position : Nat) :
      Opening d path mode t (.ok { handle with position }) u
  /-- The file is open, and its handle cannot be moved. -/
  | stuck {permissions : Nat} {handle : FileHandle} {u : FileTree}
      (hconfine : d.confine path t = .ok (d.resolve path))
      (hopens : t.OpensOrMakes (d.resolve path) mode permissions handle u) (fault : IoFault) :
      Opening d path mode t (.error fault.toFailure) u

theorem opening_openFile (hcreate : mode.create = true)
    (h : d.openFile path mode permissions t = (answer, u)) : d.Opening path mode t answer u := by
  cases hconfine : d.confine path t with
  | error f =>
      have hrefused : d.openFile path mode permissions t = (.error f, t) := by
        rw [openFile, query, hconfine]
        rfl
      obtain ⟨rfl, rfl⟩ := Prod.mk.inj (hrefused.symm.trans h)
      exact .refused hconfine
  | ok file =>
      obtain rfl := eq_resolve_of_confine hconfine
      cases hopen : t.openFile (d.resolve path) mode permissions with
      | error fault =>
          have hfailed : d.openFile path mode permissions t = (.error fault.toFailure, t) := by
            rw [openFile, query, hconfine]
            simp [bind, Except.bind, hopen, Except.mapError]
          obtain ⟨rfl, rfl⟩ := Prod.mk.inj (hfailed.symm.trans h)
          exact .failed hconfine fault
      | ok opened =>
          have hopened : d.openFile path mode permissions t = (.ok opened.1, opened.2) := by
            rw [openFile, query, hconfine]
            simp [bind, Except.bind, hopen, Except.mapError]
          obtain ⟨rfl, rfl⟩ := Prod.mk.inj (hopened.symm.trans h)
          exact .opened hconfine (openFile_creating_spec hcreate hopen) opened.1.position

theorem opening_openAt (hcreate : mode.create = true)
    (h : d.openAt path mode offset t = (answer, u)) : d.Opening path mode t answer u := by
  rcases hopen : d.openFile path mode usualPermissions t with ⟨f | handle, v⟩
  · rw [openAt, hopen] at h
    obtain ⟨rfl, rfl⟩ := Prod.mk.inj h
    exact opening_openFile hcreate hopen
  · rw [openAt, hopen] at h
    obtain ⟨rfl, rfl⟩ := Prod.mk.inj h
    cases opening_openFile hcreate hopen with
    | opened hconfine hopens position =>
        unfold seek
        split
        · exact .opened hconfine hopens offset
        · exact .stuck hconfine hopens (.system .invalidArgument)

theorem Opening.of_refused {f : Failure} (h : d.Opening path mode t answer u)
    (hrefused : d.confine path t = .error f) : answer = .error f ∧ u = t := by
  cases h with
  | refused hconfine =>
      obtain rfl := Except.error.inj (hconfine.symm.trans hrefused)
      exact ⟨rfl, rfl⟩
  | failed hconfine => cases hconfine.symm.trans hrefused
  | opened hconfine => cases hconfine.symm.trans hrefused
  | stuck hconfine => cases hconfine.symm.trans hrefused

/-- A path that is let pass, and does not dangle, leads to nothing outside. -/
theorem below_of_confine {spot : Spot} (hhome : t.canonical d.root = .ok home)
    (hconfine : d.confine path t = .ok (d.resolve path))
    (hspot : t.Leads .follow (d.resolve path) spot) (hnot : ¬ DanglesOut d home t path) :
    home <+: spot.location := by
  have hspot' := hspot.spell (spells_of_confine hconfine)
  apply Decidable.byContradiction
  intro hout
  cases hconfine.symm.trans (confine_of_out hhome hspot' hout hnot)

theorem Opening.staysInside (hhome : t.canonical d.root = .ok home)
    (h : d.Opening path mode t answer u) (hnot : ¬ DanglesOut d home t path)
    (hnear : ¬ StraysTooFar d home t path) : StaysInside d home t path answer u := by
  have hrefused : ∀ spot, t.Leads .follow (d.resolve path) spot → ¬ home <+: spot.location →
      answer = .error (.outsideRoot path) ∧ u = t := by
    intro spot hspot hout
    have hspells : t.Spells (d.resolve path) := fun hfar => hnear ⟨hfar, spot, hspot, hout⟩
    exact h.of_refused (confine_of_out hhome (hspot.spell hspells) hout hnot)
  cases h with
  | refused => exact ⟨.none, nofun, hrefused⟩
  | failed => exact ⟨.none, nofun, hrefused⟩
  | opened hconfine hopens position =>
      obtain ⟨spot, hspot, hplace, hchanges⟩ := hopens.spot
      have hbelow := below_of_confine hhome hconfine hspot hnot
      refine ⟨hchanges hbelow, ?_, hrefused⟩
      intro handle hsame
      obtain rfl := Except.ok.inj hsame
      exact hplace ▸ hbelow
  | stuck hconfine hopens fault =>
      obtain ⟨spot, hspot, -, hchanges⟩ := hopens.spot
      have hbelow := below_of_confine hhome hconfine hspot hnot
      exact ⟨hchanges hbelow, nofun, hrefused⟩

theorem toFailure_ne_outsideRoot (fault : IoFault) (path : String) :
    fault.toFailure ≠ .outsideRoot path := by
  intro h
  have hkind := congrArg Failure.kind h
  unfold IoFault.toFailure at hkind
  split at hkind <;> cases hkind

/-- A path that dangles out is not refused as one that leads outside. -/
theorem Opening.not_danglesOut (hhome : t.canonical d.root = .ok home)
    (h : d.Opening path mode t answer u) (hstays : StaysInside d home t path answer u) :
    ¬ DanglesOut d home t path := by
  intro hdangles
  have hconfine := confine_of_danglesOut hhome hdangles
  obtain ⟨-, -, -, -, hfree, hout⟩ := hdangles
  obtain ⟨hanswer, -⟩ := hstays.refused _ (hfree.follow Ending.spell_ne_keep) hout
  cases h with
  | refused hrefused => cases hconfine.symm.trans hrefused
  | failed _ fault => exact toFailure_ne_outsideRoot fault path (Except.error.inj hanswer)
  | opened => cases hanswer
  | stuck _ _ fault => exact toFailure_ne_outsideRoot fault path (Except.error.inj hanswer)

theorem Opening.of_straysTooFar (hhome : t.canonical d.root = .ok home)
    (h : d.Opening path mode t answer u) (hfar : StraysTooFar d home t path) :
    answer = .error (IoFault.system .nameTooLong).toFailure ∧ u = t :=
  h.of_refused (confine_of_straysTooFar hhome hfar)

/-- Nor is a path that strays too far. -/
theorem Opening.not_straysTooFar (hhome : t.canonical d.root = .ok home)
    (h : d.Opening path mode t answer u) (hstays : StaysInside d home t path answer u) :
    ¬ StraysTooFar d home t path := by
  intro hfar
  obtain ⟨spot, hspot, hout⟩ := hfar.out
  obtain ⟨hanswer, -⟩ := hstays.refused spot hspot hout
  rw [(h.of_straysTooFar hhome hfar).1] at hanswer
  exact toFailure_ne_outsideRoot _ path (Except.error.inj hanswer)

/-- What a path opens or makes that was let pass: nothing outside that is there. -/
theorem spares_of_opens {handle : FileHandle} (hhome : t.canonical d.root = .ok home)
    (hconfine : d.confine path t = .ok (d.resolve path))
    (hopens : t.OpensOrMakes (d.resolve path) mode permissions handle u) :
    (∀ place node, ¬ home <+: place → t.node? place = some node → u.node? place = some node) ∧
      (¬ home <+: handle.place → t.node? handle.place = none) := by
  cases hopens with
  | @opens place hleads hopened =>
      obtain ⟨-, judged, hjudged, hbelow⟩ := confine_spec hhome hconfine
      have hinside := inside_of_destination hjudged hbelow (hleads.follow nofun)
      constructor
      · intro other node hout hnode
        rw [node?_of_outside (hopened.changes hinside.below).outside hout, hnode]
      · rw [hopened.handle_eq]
        exact fun hout => absurd hinside.below hout
  | makes hleads hhandle hmade =>
      rw [hmade, hhandle]
      exact ⟨fun _ _ _ hnode => node?_insert_of_some t _ hnode, fun _ => hleads.2.node?_of_free⟩

/-- Whether or not a path dangles, nothing outside that is there is opened or changed. -/
theorem Opening.sparesOutside (hhome : t.canonical d.root = .ok home)
    (h : d.Opening path mode t answer u) : SparesOutside home t answer u := by
  cases h with
  | refused => exact ⟨fun _ _ _ hnode => hnode, nofun⟩
  | failed => exact ⟨fun _ _ _ hnode => hnode, nofun⟩
  | opened hconfine hopens position =>
      obtain ⟨hnode, hnone⟩ := spares_of_opens hhome hconfine hopens
      refine ⟨hnode, ?_⟩
      intro handle hsame hout
      obtain rfl := Except.ok.inj hsame
      exact hnone hout
  | stuck hconfine hopens fault => exact ⟨(spares_of_opens hhome hconfine hopens).1, nofun⟩

/-- A request to open a file, and to make it if it is missing, at its beginning or at an offset:
it stays inside the directory unless the path dangles out of it, or strays too far, when it fails
for the length and changes nothing. Even a path that dangles out neither opens nor changes what is
there outside. Where the root leads nowhere, the request fails and changes nothing. -/
theorem creating_stays_inside_iff (d : ServedDirectory) (t : FileTree) (path : String)
    {mode : OpenMode} (hcreate : mode.create = true) {answer : Except Failure FileHandle}
    {u : FileTree}
    (hopening : (∃ permissions, d.openFile path mode permissions t = (answer, u)) ∨
      ∃ offset, d.openAt path mode offset t = (answer, u)) :
    (∀ home, t.canonical d.root = .ok home →
      (StaysInside d home t path answer u ↔
        ¬ DanglesOut d home t path ∧ ¬ StraysTooFar d home t path) ∧
        (StraysTooFar d home t path →
          answer = .error (IoFault.system .nameTooLong).toFailure ∧ u = t) ∧
        SparesOutside home t answer u) ∧
      ∀ fault, t.canonical d.root = .error fault → answer = .error fault.toFailure ∧ u = t := by
  have h : d.Opening path mode t answer u := by
    rcases hopening with ⟨permissions, hopen⟩ | ⟨offset, hopen⟩
    · exact opening_openFile hcreate hopen
    · exact opening_openAt hcreate hopen
  constructor
  · intro home hhome
    refine ⟨⟨?_, ?_⟩, h.of_straysTooFar hhome, h.sparesOutside hhome⟩
    · intro hstays
      exact ⟨h.not_danglesOut hhome hstays, h.not_straysTooFar hhome hstays⟩
    · rintro ⟨hnot, hnear⟩
      exact h.staysInside hhome hnot hnear
  · intro fault hnowhere
    exact h.of_refused (confine_of_error hnowhere path)

/-- A link that leads to a free name in the directory: the file is made there. -/
theorem creating_stays_inside_iff_within :
    let d : ServedDirectory := ⟨"/s"⟩
    let mode : OpenMode := { write := true, create := true }
    let t : FileTree :=
      { nodes := [(["s"], { content := .directory, permissions := 0o755 }),
          (["s", "l"], { content := .link "new", permissions := 0o777 })] }
    let u := t.insert ["s", "new"] { content := .file [], permissions := 0o644 }
    mode.create = true ∧
      d.openFile "l" mode 0o644 t = (.ok ⟨["s", "new"], 0, false⟩, u) ∧
      t.canonical d.root = .ok ["s"] ∧
      StaysInside d ["s"] t "l" (.ok ⟨["s", "new"], 0, false⟩) u := by
  intro d mode t u
  have hopen : d.openFile "l" mode 0o644 t = (.ok ⟨["s", "new"], 0, false⟩, u) := by cbv
  have hhome : t.canonical d.root = .ok ["s"] := by cbv
  have hcreate : mode.create = true := rfl
  refine ⟨hcreate, hopen, hhome, ?_⟩
  obtain ⟨hstays, -⟩ :=
    (creating_stays_inside_iff d t "l" hcreate (.inl ⟨0o644, hopen⟩)).1 ["s"] hhome
  have hleads : t.Leads .spell (d.resolve "l") (.free ["s"] "new") := by
    rw [← reach_eq_ok_iff]
    cbv
  refine hstays.mpr ⟨?_, fun hstrays => ?_⟩
  · rintro ⟨-, -, -, -, hfree, hout⟩
    cases hfree.eq hleads
    exact hout (by decide)
  · cases (canonical_of_free hleads).symm.trans hstrays.far

/-- A link that leads to a free name outside the directory: the file is made outside. -/
theorem creating_leaves_the_directory :
    let d : ServedDirectory := ⟨"/r"⟩
    let mode : OpenMode := { write := true, create := true }
    let t : FileTree :=
      { nodes := [(["r"], { content := .directory, permissions := 0o755 }),
          (["r", "o"], { content := .link "../new", permissions := 0o777 })] }
    let u := t.insert ["new"] { content := .file [], permissions := 0o644 }
    t.canonical d.root = .ok ["r"] ∧
      d.openFile "o" mode 0o644 t = (.ok ⟨["new"], 0, false⟩, u) ∧
      ¬ StaysInside d ["r"] t "o" (.ok ⟨["new"], 0, false⟩) u := by
  intro d mode t u
  have hopen : d.openFile "o" mode 0o644 t = (.ok ⟨["new"], 0, false⟩, u) := by cbv
  have hhome : t.canonical d.root = .ok ["r"] := by cbv
  refine ⟨hhome, hopen, fun hstays => ?_⟩
  exact absurd (hstays.opened _ rfl) (by decide)

end ServedDirectory

end FtpControl

import FtpControl.Proofs.Storage.Confinement
import FtpControl.Proofs.Storage.RangeCauses

/-!
# Links that requests make

A link holds the path that its target stands for, as it was asked for, while the target is judged by
where that path leads. Below a root with an absolute path, the link leads where its target does:
both are described alike, but for the name, and have the same digests.
-/

namespace FtpControl

/-! ## Two paths to one place -/

/-- Handles give the same in one state as in the same state. -/
theorem Storage.readsAlike_eq {σ κ : Type} (st : Storage σ κ) :
    st.ReadsAlike fun _ s s' => s' = s where
  read := by
    rintro h s _ rfl most
    exact ⟨rfl, rfl, rfl⟩

namespace ServedDirectory

open FileTree

variable {d : ServedDirectory} {t u : FileTree} {home place : Location}

/-- Paths of system calls that lead to the same place in the directory. -/
structure Together (d : ServedDirectory) (home : Location) (t : FileTree) (place : Location)
    (path path' : String) : Prop where
  inside : d.Inside home t path place
  inside' : d.Inside home t path' place
  short : (d.resolve path).utf8ByteSize ≤ pathLimit
  short' : (d.resolve path').utf8ByteSize ≤ pathLimit

namespace Together

variable {path path' : String} (hhome : t.canonical d.root = .ok home)
  (h : Together d home t place path path')
include hhome h

theorem openFile_eq {mode : OpenMode} (hcreate : mode.create = false) (permissions : Nat) :
    d.openFile path' mode permissions t = d.openFile path mode permissions t := by
  have hopen : t.openFile (d.resolve path') mode permissions =
      t.openFile (d.resolve path) mode permissions := by
    rw [FileTree.openFile_eq hcreate, FileTree.openFile_eq hcreate, h.inside.locate h.short,
      h.inside'.locate h.short']
  unfold openFile
  rw [query_of_inside hhome h.inside, query_of_inside hhome h.inside', hopen]

theorem openAt_eq {mode : OpenMode} (hcreate : mode.create = false) (offset : Nat) :
    d.openAt path' mode offset t = d.openAt path mode offset t := by
  unfold openAt
  rw [h.openFile_eq hhome hcreate]

/-- The digests under both paths are of the same bytes, and fail alike. -/
theorem digest_eq (a : HashAlgorithm) (range : ByteRange) :
    (Checksum.ofRange d.storage path' a range { store := t }).1 =
      (Checksum.ofRange d.storage path a range { store := t }).1 := by
  rcases hopen : d.openAt path .readOnly range.start t with ⟨opened, v⟩
  have hopen' := (h.openAt_eq hhome rfl range.start).trans hopen
  unfold Checksum.ofRange
  rw [openRange_of_openAt hopen, openRange_of_openAt hopen']
  split
  · rfl
  · cases opened with
    | error f => rfl
    | ok handle =>
        refine congrArg (Except.map DigestEngine.hex) ?_
        exact Checksum.stream_congr d.storage.readsAlike_eq _ rfl

theorem stat_eq {node : Node} (hnode : t.node? place = some node) :
    ∃ info name, d.stat path t = .ok info ∧ d.stat path' t = .ok { info with name } :=
  ⟨_, (lastName? (d.resolve path')).getD "/", stat_of_inside hhome h.inside h.short hnode,
    stat_of_inside hhome h.inside' h.short' hnode⟩

end Together

/-! ## Following a new link -/

theorem origin_of_absolute {path : String} (h : path.toList.head? = some '/')
    (directory : Location) : origin directory path = [] :=
  if_pos h

/-- Whatever the names are, a path below an absolute root starts at the top. -/
theorem origin_resolve (h : d.root.toList.head? = some '/') (path : String)
    (directory : Location) : origin directory (d.resolve path) = [] := by
  have hroot : d.root ≠ "" := by
    rintro hempty
    rw [hempty] at h
    cases h
  have hnames : ∀ name ∈ segments path, IsEntryName name := fun name hname =>
    isEntryName_of_mem_segments hname
  obtain ⟨horigin, -⟩ := properNames_pathOf (d := d) hroot hnames directory
  rw [resolve, horigin, origin_of_absolute h]

/-- The names of a path whose last name is free lead to the directory where it is looked up. -/
theorem goes_to_free {link name : String} {directory : Location}
    (hhome : t.canonical d.root = .ok home)
    (hfree : t.Leads .keep (d.resolve link) (.free directory name))
    (hspells : t.Spells (d.resolve link)) :
    ∃ spent left front, linkLimit = left + spent ∧ names (d.resolve link) = front ++ [name] ∧
      t.Goes spent (origin t.workingDirectory (d.resolve link)) front directory ∧
      t.LooksUp .spell directory name [] := by
  have hkeep := Ending.keep_ne_create
  have hleads := hfree.follow_of_free.spell hspells
  obtain ⟨hroot, -⟩ := canonical_eq_ok_iff.mp hhome
  have hsegments : segments link ≠ [] := by
    intro hnone
    rw [resolve, hnone] at hleads
    cases hleads.eq (canonical_eq_ok_iff.mp hhome)
  obtain ⟨spent, left, mid, front, last, hlast, hlinks, hnames, hgoes, -, hends⟩ :=
    goes_to_parent hsegments (pathOf_ne_empty hroot.2 _) hleads
  obtain ⟨hlook, ⟨rfl, rfl, -⟩ | ⟨node, target, hnode, hlink⟩⟩ :=
    hends.last_of_free hlast.ordinary
  · exact ⟨spent, left, front, hlinks, hnames, hgoes, hlook⟩
  · -- A walk that stays at a link does not end at a free name.
    have hstays : t.Leads .keep (d.resolve link) (.taken (mid ++ [last])) := by
      refine ⟨hfree.1, walks_of_walk ?_⟩
      rw [hnames, hlinks, hgoes.walk_append left hkeep (.inl (List.cons_ne_nil last []))]
      exact hlook.keep.walk_of_kept hnode hlink left
    cases hstays.eq hfree

/-- The path of a new link is walked to the directory that holds the link, and from the top along
the target's path, with the links that are left. -/
theorem canonical_of_link {target link name : String} {directory : Location} {node : Node}
    (habsolute : d.root.toList.head? = some '/') (hhome : t.canonical d.root = .ok home)
    (hplace : t.canonical (d.resolve target) = .ok place)
    (hfree : t.Leads .keep (d.resolve link) (.free directory name))
    (hspells : t.Spells (d.resolve link)) (hlink : node.content = .link (d.resolve target)) :
    let u := t.insert (directory ++ [name]) node
    u.canonical (d.resolve link) = .ok place ∨
      u.canonical (d.resolve link) = .error (.system .tooManyLinks) := by
  intro u
  have hgrows := grows_insert t (directory ++ [name]) node
  have hcreate := Ending.spell_ne_create
  have hkeep := Ending.spell_ne_keep
  obtain ⟨spent, left, front, hlinks, hnames, hgoes, hlook⟩ := goes_to_free hhome hfree hspells
  obtain ⟨htarget, hwalks⟩ := canonical_eq_ok_iff.mp hplace
  rw [origin_resolve habsolute, ← List.append_nil (names _)] at hwalks
  obtain ⟨needed, rest, goal, -, hfar, hdone⟩ := hwalks.cut fun _ => ⟨place, rfl⟩
  obtain rfl := Spot.taken.inj hdone.spot_of_nil
  have hcontent : u.content? (directory ++ [name]) = some (.link (d.resolve target)) := by
    rw [content?, node?_insert_of_none node hfree.2.node?_of_free, Option.map_some, hlink]
  rw [canonical_eq hfree.1, hnames, hlinks, hgrows.workingDirectory,
    (hgoes.grow hgrows).walk_append left hcreate (.inr hkeep),
    (hgrows.looksUp hlook).walk_eq, hcontent]
  simp only [hkeep, and_false, if_neg htarget.2, origin_resolve habsolute, if_false]
  cases left with
  | zero => exact .inr rfl
  | succ left =>
      rcases Nat.lt_or_ge left needed with hlt | hle
      · right
        simp only [List.append_nil, (hfar.grow hgrows).walk_of_lt hlt]
        rfl
      · left
        obtain ⟨more, rfl⟩ := Nat.exists_eq_add_of_le' hle
        simp only [(hfar.grow hgrows).walk_append more hcreate (.inr hkeep), walk]
        rfl

/-- A link that was made below an absolute root names its target: its path led to nothing before;
now it leads where the target's does, unless that takes one link too many, it is described as the
target is but for the name, and each range of it has the same digest or fails alike. -/
theorem link_names_its_target (d : ServedDirectory) (t : FileTree) {home place : Location}
    {target link : String} {u : FileTree} (habsolute : d.root.toList.head? = some '/')
    (hhome : t.canonical d.root = .ok home) (hinside : d.Inside home t target place)
    (hmade : d.symlink target link t = .ok u)
    (hlinks : u.canonical (d.resolve link) ≠ .error (.system .tooManyLinks)) :
    d.stat link t = .error (IoFault.system .noEntry).toFailure ∧
      (∃ directory name, t.Leads .keep (d.resolve link) (.free directory name)) ∧
      u.canonical (d.resolve link) = .ok place ∧
      (∃ info name, d.stat target u = .ok info ∧ d.stat link u = .ok { info with name }) ∧
      ∀ a range, (Checksum.ofRange d.storage link a range { store := u }).1 =
        (Checksum.ofRange d.storage target a range { store := u }).1 := by
  obtain ⟨hasked, judged, hjudged, hbelow⟩ := symlink_asks hhome hmade
  obtain ⟨hshort, hshort'⟩ := symlink_short hasked
  obtain ⟨directory, name, node, -, hfree, -, hlink, rfl⟩ := symlink_inside hhome hmade
  have hgrows := grows_insert t (directory ++ [name]) node
  have hspells := spells_of_destination hjudged
  have hleads := (canonical_of_link habsolute hhome hinside.canonical hfree hspells
    hlink).resolve_right hlinks
  have htogether : Together d home (t.insert (directory ++ [name]) node) place target link :=
    ⟨⟨hgrows.canonical hinside.canonical, hinside.below⟩, ⟨hleads, hinside.below⟩, hshort, hshort'⟩
  have hhome' := hgrows.canonical hhome
  obtain ⟨there, hthere⟩ : ∃ there, (t.insert (directory ++ [name]) node).node? place =
      some there := by
    obtain ⟨-, hwalks⟩ := canonical_eq_ok_iff.mp htogether.inside.canonical
    rw [origin_resolve habsolute] at hwalks
    exact Option.isSome_iff_exists.mp (hwalks.stands stands_top place (List.prefix_refl _))
  refine ⟨?_, ⟨directory, name, hfree⟩, hleads, htogether.stat_eq hhome' hthere, ?_⟩
  · have hconfine : d.confine link t = .ok (d.resolve link) := by
      rw [confine_of_destination hhome hjudged, if_pos hbelow]
    have hnothing : t.stat (d.resolve link) = .error (.system .noEntry) := by
      rw [FileTree.stat, hspells.locate_eq, if_neg (Nat.not_lt.mpr hshort'),
        canonical_of_free (hfree.follow_of_free.spell hspells)]
      rfl
    rw [stat, query, hconfine]
    show ((t.stat (d.resolve link)).map _).mapError _ = _
    rw [hnothing]
    rfl
  · exact fun a range => htogether.digest_eq hhome' a range

/-- A link to a file, by a path through another link and with a dot in it. -/
theorem link_names_its_target_through_link :
    let d : ServedDirectory := ⟨"/r"⟩
    let nodes : List (Location × Node) :=
      [(["r"], { content := .directory, permissions := 0o755 }),
        (["r", "f"], { content := .file [1, 2], permissions := 0o644 }),
        (["r", "k"], { content := .link "f", permissions := 0o777 })]
    let t : FileTree := { nodes }
    let u := t.insert ["r", "l"] { content := .link "/r/k", permissions := 0o777 }
    t.canonical d.root = .ok ["r"] ∧ d.Inside ["r"] t "./k" ["r", "f"] ∧
      d.symlink "./k" "l" t = .ok u ∧
      u.canonical (d.resolve "l") ≠ .error (.system .tooManyLinks) ∧
      ∃ info name, d.stat "./k" u = .ok info ∧ d.stat "l" u = .ok { info with name } := by
  intro d nodes t u
  have hhome : t.canonical d.root = .ok ["r"] := by cbv
  have hinside : d.Inside ["r"] t "./k" ["r", "f"] := by
    refine ⟨?_, ⟨["f"], rfl⟩⟩
    cbv
  have hmade : d.symlink "./k" "l" t = .ok u := by cbv
  have hlinks : u.canonical (d.resolve "l") ≠ .error (.system .tooManyLinks) := by
    have hplace : u.canonical (d.resolve "l") = .ok ["r", "f"] := by cbv
    rw [hplace]
    intro hlooped
    cases hlooped
  obtain ⟨-, -, -, hsame, -⟩ := link_names_its_target d t (by decide) hhome hinside hmade hlinks
  exact ⟨hhome, hinside, hmade, hlinks, hsame⟩

end ServedDirectory

end FtpControl

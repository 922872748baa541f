import FtpControl.Proofs.FileTree.Visiting
import FtpControl.Proofs.Storage.Reading
import FtpControl.Proofs.Storage.ServedPaths

/-!
# Requests on a confined path

A path is judged by where it leads, and a path that leads to nothing by where its parent leads; the
operation then takes the path as it was. What the operation reaches is what was judged: an entry in
the directory or below, or a free name in such a directory.
-/

namespace FtpControl

namespace ServedDirectory

open FileTree

variable {d : ServedDirectory} {t u : FileTree} {home place : Location} {path : String}

/-- Whether a session's path leads to a place in a directory or below. -/
structure Inside (d : ServedDirectory) (home : Location) (t : FileTree) (path : String)
    (place : Location) : Prop where
  canonical : t.canonical (d.resolve path) = .ok place
  below : home <+: place

/-! ## Judging a path -/

theorem destination_of_canonical (h : t.canonical (d.resolve path) = .ok place) :
    d.destination path t = .ok place := by
  rw [destination, h]

theorem destination_of_noEntry (h : t.canonical (d.resolve path) = .error (.system .noEntry))
    (hsegments : segments path ≠ []) :
    d.destination path t = t.canonical (d.pathOf (segments path).dropLast) := by
  have hkind : (IoFault.system .noEntry).kind = .notFound := by decide
  rw [destination, h]
  simp only [hkind, hsegments, ne_eq, not_false_iff, and_self, if_true]

theorem confine_of_destination {judged : Location} (hhome : t.canonical d.root = .ok home)
    (hjudged : d.destination path t = .ok judged) :
    d.confine path t =
      if home <+: judged then .ok (d.resolve path) else .error (.outsideRoot path) := by
  rw [confine, hhome, hjudged]
  show (if home.isPrefixOf judged = true then _ else _) = _
  simp only [List.isPrefixOf_iff_prefix]

/-- All places on the way of a judged path can be spelled out. -/
theorem spells_of_destination {judged : Location} (hjudged : d.destination path t = .ok judged) :
    t.Spells (d.resolve path) := by
  intro hfar
  have hkind : (IoFault.system .nameTooLong).kind ≠ .notFound := by decide
  rw [destination, hfar] at hjudged
  simp only [hkind, false_and, if_false] at hjudged
  cases hjudged

/-- A path that is let pass is taken as it was. -/
theorem eq_resolve_of_confine {file : String} (h : d.confine path t = .ok file) :
    file = d.resolve path := by
  obtain ⟨home, -, hrest⟩ := bind_eq_ok_iff.mp h
  obtain ⟨place, -, hjudged⟩ := bind_eq_ok_iff.mp hrest
  split at hjudged
  · exact (Except.ok.inj hjudged).symm
  · cases hjudged

theorem spells_of_confine {file : String} (h : d.confine path t = .ok file) :
    t.Spells (d.resolve path) := by
  obtain ⟨home, -, hrest⟩ := bind_eq_ok_iff.mp h
  obtain ⟨place, hplace, -⟩ := bind_eq_ok_iff.mp hrest
  exact spells_of_destination (mapError_eq_ok_iff.mp hplace)

theorem confine_spec {file : String} (hhome : t.canonical d.root = .ok home)
    (h : d.confine path t = .ok file) :
    file = d.resolve path ∧ ∃ place, d.destination path t = .ok place ∧ home <+: place := by
  obtain ⟨home', hhome', hrest⟩ := bind_eq_ok_iff.mp h
  obtain ⟨place, hplace, hjudged⟩ := bind_eq_ok_iff.mp hrest
  obtain rfl := Except.ok.inj (hhome.symm.trans (mapError_eq_ok_iff.mp hhome'))
  by_cases hbelow : home.isPrefixOf place = true
  · rw [if_pos hbelow, Except.ok.injEq] at hjudged
    exact ⟨hjudged.symm, place, mapError_eq_ok_iff.mp hplace, List.isPrefixOf_iff_prefix.mp hbelow⟩
  · simp [hbelow] at hjudged

theorem query_spec {α : Type} {ask : String → Except IoFault α} {a : α}
    (hhome : t.canonical d.root = .ok home) (h : d.query path t ask = .ok a) :
    ask (d.resolve path) = .ok a ∧ ∃ place, d.destination path t = .ok place ∧ home <+: place := by
  obtain ⟨file, hconfine, hask⟩ := bind_eq_ok_iff.mp h
  obtain ⟨rfl, hplace⟩ := confine_spec hhome hconfine
  exact ⟨mapError_eq_ok_iff.mp hask, hplace⟩

/-- What a judged path leads to is what it was judged by. -/
theorem inside_of_destination {judged : Location} (hjudged : d.destination path t = .ok judged)
    (hbelow : home <+: judged) (hleads : t.Leads .follow (d.resolve path) (.taken place)) :
    d.Inside home t path place := by
  have hplace := canonical_eq_ok_iff.mpr (hleads.spell (spells_of_destination hjudged))
  obtain rfl := Except.ok.inj ((destination_of_canonical hplace).symm.trans hjudged)
  exact ⟨hplace, hbelow⟩

/-- A path that leads to nothing is judged by the directory in which its last name is looked up.
The name is free there, or that of a link, which leads to nothing in turn. -/
theorem judged_of_free {directory : Location} {name : String}
    (hhome : t.canonical d.root = .ok home)
    (hfree : t.Leads .spell (d.resolve path) (.free directory name)) :
    ∃ judged last, d.destination path t = .ok judged ∧
      (directory = judged ∧ t.Leads .keep (d.resolve path) (.free directory name) ∨
        ∃ node target, t.node? (judged ++ [last]) = some node ∧ node.content = .link target ∧
          t.Leads .keep (d.resolve path) (.taken (judged ++ [last]))) := by
  obtain ⟨hroot, -⟩ := canonical_eq_ok_iff.mp hhome
  have hsegments : segments path ≠ [] := by
    intro hnone
    rw [resolve, hnone] at hfree
    cases hfree.eq (canonical_eq_ok_iff.mp hhome)
  obtain ⟨left, judged, last, hlast, hparent, hgoes, hother⟩ :=
    leads_through_parent hsegments (pathOf_ne_empty hroot.2 _) hfree
  have hjudged : d.destination path t = .ok judged := by
    rw [destination_of_noEntry (canonical_of_free hfree) hsegments, hparent]
  have hkeep := Ending.keep_ne_create
  obtain ⟨hlook, ⟨rfl, rfl, hnode⟩ | ⟨node, target, hnode, hlink⟩⟩ :=
    hgoes.last_of_free hlast.ordinary
  · have hkept := hother hkeep (.missing hlook.keep hnode)
    exact ⟨directory, name, hjudged, .inl ⟨rfl, hkept⟩⟩
  · have hkept := hother hkeep (.kept hlook.keep hnode hlink rfl)
    exact ⟨judged, last, hjudged, .inr ⟨node, target, hnode, hlink, hkept⟩⟩

/-- Where the root leads nowhere, no path is judged. -/
theorem confine_of_error {fault : IoFault} (h : t.canonical d.root = .error fault)
    (path : String) : d.confine path t = .error fault.toFailure := by
  rw [confine, h]
  rfl

theorem query_of_error {α : Type} {fault : IoFault} (h : t.canonical d.root = .error fault)
    (path : String) (ask : String → Except IoFault α) :
    d.query path t ask = .error fault.toFailure := by
  rw [query, confine_of_error h]
  rfl

/-! ## Requests -/

theorem Inside.locate (h : d.Inside home t path place)
    (hshort : (d.resolve path).utf8ByteSize ≤ pathLimit) :
    t.locate (d.resolve path) = .ok place := by
  rw [(spells_of_canonical h.canonical).locate_eq, if_neg (Nat.not_lt.mpr hshort), h.canonical]

section

variable (hhome : t.canonical d.root = .ok home)
include hhome

theorem confine_of_inside (h : d.Inside home t path place) :
    d.confine path t = .ok (d.resolve path) := by
  rw [confine_of_destination hhome (destination_of_canonical h.canonical), if_pos h.below]

theorem query_of_inside {α : Type} (h : d.Inside home t path place)
    (ask : String → Except IoFault α) :
    d.query path t ask = (ask (d.resolve path)).mapError IoFault.toFailure := by
  rw [query, confine_of_inside hhome h]
  rfl

theorem stat_of_inside {node : Node} (h : d.Inside home t path place)
    (hshort : (d.resolve path).utf8ByteSize ≤ pathLimit) (hnode : t.node? place = some node) :
    d.stat path t = .ok (node.info ((lastName? (d.resolve path)).getD "/")) := by
  rw [stat, query_of_inside hhome h, FileTree.stat, h.locate hshort]
  simp [bind, Except.bind, hnode, Except.map, Except.mapError]

theorem stat_inside {info : FileInfo} (h : d.stat path t = .ok info) :
    ∃ place node, d.Inside home t path place ∧ t.node? place = some node ∧
      info = node.info ((lastName? (d.resolve path)).getD "/") := by
  obtain ⟨hask, judged, hjudged, hbelow⟩ := query_spec hhome h
  obtain ⟨node, hstat, rfl⟩ := map_eq_ok_iff.mp hask
  obtain ⟨place, hplace, hnode⟩ := stat_spec hstat
  exact ⟨place, node, inside_of_destination hjudged hbelow hplace, hnode, rfl⟩

theorem readDir_inside {entries : List FileInfo} (h : d.readDir path t = .ok entries) :
    ∃ place, d.Inside home t path place ∧ t.isDirectory place = true ∧
      entries.Perm ((t.children place).map fun (name, node) => node.info name) := by
  obtain ⟨hask, judged, hjudged, hbelow⟩ := query_spec hhome h
  obtain ⟨children, hlist, rfl⟩ := map_eq_ok_iff.mp hask
  obtain ⟨place, hplace, hdir, rfl⟩ := list_spec hlist
  exact ⟨place, inside_of_destination hjudged hbelow hplace, hdir, List.mergeSort_perm ..⟩

/-- A node changed in its attributes is one that the path leads to. -/
theorem modify_inside {modify : String → Except IoFault FileTree}
    (hmodify : ∀ {u}, modify (d.resolve path) = .ok u → ∃ place change,
      t.Leads .follow (d.resolve path) (.taken place) ∧ u = t.update place change ∧
        ∀ node, (change node).content = node.content)
    (h : d.query path t modify = .ok u) :
    ∃ place, d.Inside home t path place ∧ Changes home t u := by
  obtain ⟨hask, judged, hjudged, hbelow⟩ := query_spec hhome h
  obtain ⟨place, change, hplace, rfl, hcontent⟩ := hmodify hask
  have hinside := inside_of_destination hjudged hbelow hplace
  refine ⟨place, hinside, .update hinside.below ?_⟩
  intro node _
  rw [hcontent]
  exact .same _

theorem chmod_inside {permissions : Nat} (h : d.chmod path permissions t = .ok u) :
    ∃ place, d.Inside home t path place ∧ Changes home t u :=
  modify_inside hhome chmod_spec h

theorem chown_inside {user : Nat} {group : Option Nat} (h : d.chown path user group t = .ok u) :
    ∃ place, d.Inside home t path place ∧ Changes home t u :=
  modify_inside hhome chown_spec h

/-- Both paths of a link are let pass, and the system makes it. -/
theorem symlink_asks {target link : String} (h : d.symlink target link t = .ok u) :
    t.symlink (d.resolve target) (d.resolve link) = .ok u ∧
      ∃ judged, d.destination link t = .ok judged ∧ home <+: judged := by
  obtain ⟨file, hconfine, hquery⟩ := bind_eq_ok_iff.mp h
  obtain ⟨rfl, -⟩ := confine_spec hhome hconfine
  exact query_spec hhome hquery

theorem symlink_inside {target link : String} (h : d.symlink target link t = .ok u) :
    ∃ directory name node, home <+: directory ∧
      t.Leads .keep (d.resolve link) (.free directory name) ∧
      t.node? (directory ++ [name]) = none ∧ node.content = .link (d.resolve target) ∧
      u = t.insert (directory ++ [name]) node := by
  obtain ⟨hask, judged, hjudged, hbelow⟩ := symlink_asks hhome h
  obtain ⟨directory, name, node, hfree, rfl, hlink⟩ := symlink_spec hask
  obtain ⟨judged', last, hjudged', ⟨rfl, -⟩ | ⟨_, _, -, -, hkept⟩⟩ :=
    judged_of_free hhome (hfree.follow_of_free.spell (spells_of_destination hjudged))
  · obtain rfl := Except.ok.inj (hjudged.symm.trans hjudged')
    exact ⟨_, name, node, hbelow, hfree, hfree.2.node?_of_free, hlink, rfl⟩
  · cases hkept.eq hfree

theorem openFile_inside {mode : OpenMode} {permissions : Nat}
    {answer : Except Failure FileHandle} (hmode : mode.create = false)
    (h : d.openFile path mode permissions t = (answer, u)) :
    Changes home t u ∧ (mode.truncate = false → u = t) ∧
      ∀ handle, answer = .ok handle →
        ∃ place, d.Inside home t path place ∧ handle = ⟨place, 0, mode.read⟩ := by
  unfold openFile at h
  split at h
  · next handle u' hquery =>
      obtain ⟨rfl, rfl⟩ := Prod.mk.inj h
      obtain ⟨hask, judged, hjudged, hbelow⟩ := query_spec hhome hquery
      obtain ⟨place, hplace, hopened⟩ := openFile_spec hmode hask
      have hinside := inside_of_destination hjudged hbelow hplace
      refine ⟨hopened.changes hinside.below, hopened.eq_of_whole, ?_⟩
      intro handle' hsame
      obtain rfl := Except.ok.inj hsame
      exact ⟨place, hinside, hopened.handle_eq⟩
  · obtain ⟨rfl, rfl⟩ := Prod.mk.inj h
    exact ⟨.none, fun _ => rfl, by simp⟩

theorem openAt_inside {mode : OpenMode} {offset : Nat} {answer : Except Failure FileHandle}
    (hmode : mode.create = false) (h : d.openAt path mode offset t = (answer, u)) :
    Changes home t u ∧ (mode.truncate = false → u = t) ∧
      ∀ handle, answer = .ok handle →
        ∃ place, d.Inside home t path place ∧ handle = ⟨place, offset, mode.read⟩ := by
  unfold openAt at h
  split at h
  · next f u' hopen =>
      obtain ⟨rfl, rfl⟩ := Prod.mk.inj h
      obtain ⟨hchanges, hsame, -⟩ := openFile_inside hhome hmode hopen
      exact ⟨hchanges, hsame, by simp⟩
  · next opened u' hopen =>
      obtain ⟨rfl, rfl⟩ := Prod.mk.inj h
      obtain ⟨hchanges, hsame, hplace⟩ := openFile_inside hhome hmode hopen
      refine ⟨hchanges, hsame, ?_⟩
      intro handle hmoved
      obtain ⟨place, hinside, rfl⟩ := hplace opened rfl
      have hseek := mapError_eq_ok_iff.mp hmoved
      unfold FileTree.seek at hseek
      split at hseek
      · obtain rfl := Except.ok.inj hseek
        exact ⟨place, hinside, rfl⟩
      · simp at hseek

end

end ServedDirectory

end FtpControl

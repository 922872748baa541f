import Mathlib
import FtpControl.Proofs.Storage.Confinement

/-!
# Requests that fail

A request that fails leaves the tree as it was. The one exception is a file that is opened at an
offset to which no handle can be moved: it is made or emptied before its handle is to be moved.
-/

namespace FtpControl

namespace FileTree

/-- What is at a place, and with which permissions. -/
def attributes? (t : FileTree) (place : Location) : Option (Content × Nat) :=
  (t.node? place).map fun node => (node.content, node.permissions)

variable {t u : FileTree} {place : Location} {mode : OpenMode} {path : String}

/-- A node that is changed in its times only looks as before. -/
theorem attributes?_update {change : Node → Node}
    (h : ∀ {node}, t.node? place = some node →
      (change node).content = node.content ∧ (change node).permissions = node.permissions)
    (other : Location) : (t.update place change).attributes? other = t.attributes? other := by
  unfold attributes?
  rw [node?_update]
  by_cases htop : other = []
  · subst htop
    have hsame : (t.update place change).topPermissions = t.topPermissions := by
      by_cases hplace : place = []
      · subst hplace
        exact (h (node?_top t)).2
      · simp [update, hplace]
    simp [node?_top, top, hsame]
  · rw [if_neg htop]
    by_cases hother : other = place
    · subst hother
      cases hnode : t.node? other with
      | none => simp
      | some node =>
          obtain ⟨hcontent, hpermissions⟩ := h hnode
          simp [hcontent, hpermissions]
    · rw [if_neg hother]

/-- The tree once a file or a directory is open, by what the path came to. -/
inductive OpensAs (t : FileTree) (path : String) (mode : OpenMode) (permissions : Nat) :
    FileTree → Prop
  | same : OpensAs t path mode permissions t
  | emptied {place : Location} {node : Node} {data : List UInt8}
      (hmode : checkMode mode = .ok ()) (htruncate : mode.truncate = true)
      (hplace : t.reachWithin (if mode.create then .create else .follow) path =
        .ok (.taken place))
      (hnode : t.node? place = some node) (hdata : node.content = .file data) :
      OpensAs t path mode permissions
        (t.update place fun node => { node with content := .file [], modified := t.now })
  | made {directory : Location} {name : String} (hmode : checkMode mode = .ok ())
      (hcreate : mode.create = true)
      (hfree : t.reachWithin .create path = .ok (.free directory name)) :
      OpensAs t path mode permissions
        (t.insert (directory ++ [name]) ⟨.file [], granted permissions, t.now⟩)

theorem opensAs_of_openFile {permissions : Nat} {handle : FileHandle}
    (h : t.openFile path mode permissions = .ok (handle, u)) :
    t.OpensAs path mode permissions u := by
  obtain ⟨⟨⟩, hmode, h⟩ := bind_eq_ok_iff.mp h
  obtain ⟨spot, hspot, h⟩ := bind_eq_ok_iff.mp h
  cases spot with
  | taken place =>
      obtain ⟨-, node, hnode, ⟨-, rfl⟩ | ⟨data, hdata, rfl | ⟨htruncate, rfl⟩⟩⟩ := openNode_spec h
      · exact .same
      · exact .same
      · exact .emptied hmode htruncate hspot hnode hdata
  | free directory name =>
      by_cases hcreate : mode.create = true
      · rw [if_pos hcreate] at hspot
        simp only [hcreate, if_true, Except.ok.injEq, create, Prod.mk.injEq] at h
        rw [← h.2]
        exact .made hmode hcreate hspot
      · simp [hcreate] at h

end FileTree

namespace ServedDirectory

open FileTree

variable {d : ServedDirectory} {t u v : FileTree} {r : Request} {f : Failure}

/-- The requests that fail and leave something behind, with the tree after them: an empty file that
was made, or a file that has lost its bytes. -/
inductive LeavesBehind (d : ServedDirectory) (t : FileTree) : Request → FileTree → Prop
  | made {path : String} {mode : OpenMode} {offset : Nat} {directory : Location} {name : String}
      (hbeyond : offsetLimit ≤ offset) (hconfine : d.confine path t = .ok (d.resolve path))
      (hmode : checkMode mode = .ok ()) (hcreate : mode.create = true)
      (hfree : t.reachWithin .create (d.resolve path) = .ok (.free directory name)) :
      LeavesBehind d t (.openAt path mode offset)
        (t.insert (directory ++ [name]) ⟨.file [], granted usualPermissions, t.now⟩)
  | emptied {path : String} {mode : OpenMode} {offset : Nat} {place : Location} {node : Node}
      {byte : UInt8} {data : List UInt8}
      (hbeyond : offsetLimit ≤ offset) (hconfine : d.confine path t = .ok (d.resolve path))
      (hmode : checkMode mode = .ok ()) (htruncate : mode.truncate = true)
      (hplace : t.reachWithin (if mode.create then .create else .follow) (d.resolve path) =
        .ok (.taken place))
      (hnode : t.node? place = some node) (hdata : node.content = .file (byte :: data)) :
      LeavesBehind d t (.openAt path mode offset)
        (t.update place fun node => { node with content := .file [], modified := t.now })

/-- Whether an offset is asked for to which no handle can be moved. -/
def Request.isBeyond : Request → Bool
  | openAt _ _ offset => offsetLimit ≤ offset
  | _ => false

theorem openAt_beyond {path : String} {mode : OpenMode} {offset : Nat} {handle : FileHandle}
    (hbeyond : offsetLimit ≤ offset) (hconfine : d.confine path t = .ok (d.resolve path))
    (hopen : t.openFile (d.resolve path) mode usualPermissions = .ok (handle, u)) :
    d.openAt path mode offset t = (.error (IoFault.system .invalidArgument).toFailure, u) := by
  have hopened : d.openFile path mode usualPermissions t = (.ok handle, u) := by
    rw [openFile, query, hconfine]
    simp [bind, Except.bind, hopen, Except.mapError]
  have hseek : FileTree.seek handle offset = .error (.system .invalidArgument) :=
    if_neg (Nat.not_lt.mpr hbeyond)
  rw [openAt, hopened]
  simp [hseek, Except.mapError]

/-- What a request leaves behind is there once it has failed. -/
theorem LeavesBehind.respond (h : d.LeavesBehind t r v) :
    d.respond t r = (.error (IoFault.system .invalidArgument).toFailure, v) := by
  cases h with
  | @made path mode offset directory name hbeyond hconfine hmode hcreate hfree =>
      have hopen : t.openFile (d.resolve path) mode usualPermissions =
          .ok (t.create (directory ++ [name]) mode usualPermissions) := by
        rw [FileTree.openFile, hmode, hcreate, if_pos rfl, hfree]
        rfl
      rw [ServedDirectory.respond, openAt_beyond hbeyond hconfine hopen]
      rfl
  | @emptied path mode offset place node byte data hbeyond hconfine hmode htruncate hplace hnode
      hdata =>
      have hopen : t.openFile (d.resolve path) mode usualPermissions =
          .ok (⟨place, 0, mode.read⟩, t.update place fun node =>
            { node with content := .file [], modified := t.now }) := by
        rw [FileTree.openFile, hmode, hplace]
        show t.openNode place mode = _
        simp [openNode, hnode, hdata, htruncate]
      rw [ServedDirectory.respond, openAt_beyond hbeyond hconfine hopen]
      rfl

/-- What is left behind shows. -/
theorem LeavesBehind.shows (h : d.LeavesBehind t r v) :
    ∃ place, v.attributes? place ≠ t.attributes? place := by
  cases h with
  | @made path mode offset directory name hbeyond hconfine hmode hcreate hfree =>
      have hnone := (leads_of_reachWithin hfree).2.node?_of_free
      refine ⟨directory ++ [name], ?_⟩
      rw [attributes?, attributes?, node?_insert_of_none _ hnone, hnone]
      exact nofun
  | @emptied path mode offset place node byte data hbeyond hconfine hmode htruncate hplace hnode
      hdata =>
      have hdeep : place ≠ [] := by
        rintro rfl
        obtain rfl := Option.some.inj ((node?_top t).symm.trans hnode)
        cases hdata
      refine ⟨place, ?_⟩
      rw [attributes?, attributes?, node?_update, if_neg hdeep, if_pos rfl, hnode]
      simp [hdata]

/-- A change that fails is none. -/
theorem eq_of_change_error {changing : Except Failure FileTree} {Response : Type}
    {response : Response}
    (h : ((change t changing).1.map fun _ => response, (change t changing).2) = (.error f, u)) :
    u = t := by
  cases changing with
  | error f => exact (Prod.mk.inj h).2.symm
  | ok _ => cases (Prod.mk.inj h).1

theorem openFile_error {path : String} {mode : OpenMode} {permissions : Nat}
    (h : d.openFile path mode permissions t = (.error f, u)) : u = t := by
  unfold openFile at h
  split at h
  · cases (Prod.mk.inj h).1
  · exact (Prod.mk.inj h).2.symm

/-- Opening at an offset fails before the file is opened, or once its handle is to be moved. -/
theorem openAt_error {path : String} {mode : OpenMode} {offset : Nat}
    (h : d.openAt path mode offset t = (.error f, u)) :
    u = t ∨ offsetLimit ≤ offset ∧ d.confine path t = .ok (d.resolve path) ∧
      t.OpensAs (d.resolve path) mode usualPermissions u := by
  rcases hopen : d.openFile path mode usualPermissions t with ⟨f' | handle, v⟩
  · rw [openAt, hopen] at h
    rw [← (Prod.mk.inj h).2]
    exact .inl (openFile_error hopen)
  · rw [openAt, hopen] at h
    obtain ⟨hseek, rfl⟩ := Prod.mk.inj h
    right
    constructor
    · apply Nat.le_of_not_lt
      intro hlt
      rw [seek, if_pos hlt] at hseek
      cases hseek
    · unfold openFile at hopen
      split at hopen
      · next hquery =>
          obtain ⟨file, hconfine, hask⟩ := bind_eq_ok_iff.mp hquery
          obtain rfl := eq_resolve_of_confine hconfine
          obtain ⟨-, rfl⟩ := Prod.mk.inj hopen
          exact ⟨hconfine, opensAs_of_openFile (mapError_eq_ok_iff.mp hask)⟩
      · cases (Prod.mk.inj hopen).1

theorem digest_error {path : String} {a : HashAlgorithm} {range : ByteRange}
    (h : d.respond t (.digest path a range) = (.error f, u)) : u = t := by
  cases hhome : t.canonical d.root with
  | ok home =>
      rcases hdigest : Checksum.ofRange d.storage path a range { store := t } with ⟨answer, m⟩
      rw [respond, hdigest] at h
      rw [← (Prod.mk.inj h).2]
      exact (digest_inside hhome hdigest).1
  | error fault =>
      obtain ⟨f', hrespond⟩ := respond_of_error hhome (.digest path a range)
      exact (Prod.mk.inj (h.symm.trans hrespond)).2

/-- A request that fails has changed nothing, or was for an offset beyond. Even then what is there
looks as before, unless something is left behind. -/
theorem failed_spec (h : d.respond t r = (.error f, u)) :
    u = t ∨ r.isBeyond = true ∧
      (d.LeavesBehind t r u ∨ ∀ place, u.attributes? place = t.attributes? place) := by
  cases r with
  | stat path => exact .inl (Prod.mk.inj h).2.symm
  | readDir path => exact .inl (Prod.mk.inj h).2.symm
  | chmod path permissions => exact .inl (eq_of_change_error h)
  | chown path user group => exact .inl (eq_of_change_error h)
  | symlink target link => exact .inl (eq_of_change_error h)
  | openFile path mode permissions =>
      rcases hopen : d.openFile path mode permissions t with ⟨f' | handle, v⟩
      · rw [respond, hopen] at h
        rw [← (Prod.mk.inj h).2]
        exact .inl (openFile_error hopen)
      · rw [respond, hopen] at h
        cases (Prod.mk.inj h).1
  | openAt path mode offset =>
      rcases hopen : d.openAt path mode offset t with ⟨f' | handle, v⟩
      · rw [respond, hopen] at h
        obtain ⟨-, rfl⟩ := Prod.mk.inj h
        refine (openAt_error hopen).imp_right ?_
        rintro ⟨hbeyond, hconfine, hopens⟩
        refine ⟨decide_eq_true hbeyond, ?_⟩
        cases hopens with
        | same => exact .inr fun _ => rfl
        | made hmode hcreate hfree => exact .inl (.made hbeyond hconfine hmode hcreate hfree)
        | @emptied place node data hmode htruncate hplace hnode hdata =>
            cases data with
            | cons byte data =>
                exact .inl (.emptied hbeyond hconfine hmode htruncate hplace hnode hdata)
            | nil =>
                refine .inr (attributes?_update ?_)
                intro node' hnode'
                obtain rfl := Option.some.inj (hnode.symm.trans hnode')
                exact ⟨hdata.symm, rfl⟩
      · rw [respond, hopen] at h
        cases (Prod.mk.inj h).1
  | digest path a range => exact .inl (digest_error h)

/-- After a request that has failed, every place looks as before, unless a file was made or emptied
for an offset to which no handle can be moved. Without such an offset not even a time changes. -/
theorem failed_leaves_the_tree_iff (d : ServedDirectory) (t : FileTree) (r : Request) {f : Failure}
    {u : FileTree} (h : d.respond t r = (.error f, u)) :
    ((∀ place, u.attributes? place = t.attributes? place) ↔ ¬ ∃ v, d.LeavesBehind t r v) ∧
      (∀ v, d.LeavesBehind t r v → u = v) ∧ (r.isBeyond = false → u = t) := by
  have hleft : ∀ v, d.LeavesBehind t r v → u = v := fun v hbehind =>
    (Prod.mk.inj (h.symm.trans hbehind.respond)).2
  refine ⟨⟨?_, ?_⟩, hleft, ?_⟩
  · rintro hsame ⟨v, hbehind⟩
    obtain ⟨place, hshows⟩ := hbehind.shows
    exact hshows (hleft v hbehind ▸ hsame place)
  · intro hnothing place
    rcases failed_spec h with rfl | ⟨-, hbehind | hsame⟩
    · rfl
    · exact absurd ⟨u, hbehind⟩ hnothing
    · exact hsame place
  · intro hwithin
    rcases failed_spec h with rfl | ⟨hbeyond, -⟩
    · rfl
    · cases hwithin.symm.trans hbeyond

/-- A file is emptied by a request that fails. -/
theorem failed_leaves_the_tree_iff_emptied :
    let d : ServedDirectory := ⟨"/r"⟩
    let mode : OpenMode := { write := true, truncate := true }
    let t : FileTree :=
      { nodes := [(["r"], { content := .directory, permissions := 0o755 }),
          (["r", "a"], { content := .file [1], permissions := 0o600 })] }
    let u : FileTree :=
      { nodes := [(["r"], { content := .directory, permissions := 0o755 }),
          (["r", "a"], { content := .file [], permissions := 0o600 })] }
    let r : Request := .openAt "a" mode (1 <<< 63)
    d.respond t r = (.error ⟨.io, "Invalid argument (os error 22)"⟩, u) ∧ r.isBeyond = true ∧
      ∃ v, d.LeavesBehind t r v := by
  intro d mode t u r
  have hfails : d.respond t r = (.error ⟨.io, "Invalid argument (os error 22)"⟩, u) := by cbv
  refine ⟨hfails, rfl, ?_⟩
  by_contra hnothing
  have hsame := (failed_leaves_the_tree_iff d t r hfails).1.mpr hnothing ["r", "a"]
  exact absurd hsame (by decide)

/-- A file is made by a request that fails. -/
theorem failed_makes_a_file :
    let d : ServedDirectory := ⟨"/r"⟩
    let mode : OpenMode := { write := true, create := true }
    let t : FileTree := { nodes := [(["r"], { content := .directory, permissions := 0o755 })] }
    let u := t.insert ["r", "a"] { content := .file [], permissions := 0o644 }
    d.respond t (.openAt "a" mode (1 <<< 63)) =
        (.error ⟨.io, "Invalid argument (os error 22)"⟩, u) ∧
      t.attributes? ["r", "a"] = none ∧ u.attributes? ["r", "a"] = some (.file [], 0o644) := by
  intro d mode t u
  exact ⟨by cbv, rfl, rfl⟩

end ServedDirectory

end FtpControl

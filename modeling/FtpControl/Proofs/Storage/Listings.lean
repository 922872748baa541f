import FtpControl.Proofs.FileTree.Rearranging
import FtpControl.Proofs.Storage.Calls
import FtpControl.Proofs.Storage.Permissions
import FtpControl.Proofs.Text.Ordering

/-!
# Listings of a directory

A listing has the entries of a directory by name. Names are distinct in a tree that holds one node
at each location, as every call on the storage leaves it; so there is one such listing, and the
order in which the entries are stored makes no difference.
-/

namespace FtpControl

/-! ## Entries by name -/

/-- The descriptions of entries, sorted by name. -/
def FileInfo.byName (entries : List (String × Node)) : List FileInfo :=
  (entries.map fun (name, node) => node.info name).mergeSort fun a b => a.name ≤ b.name

namespace FileInfo

variable {entries order : List (String × Node)}

theorem byName_perm (entries : List (String × Node)) :
    (byName entries).Perm (entries.map fun (name, node) => node.info name) :=
  List.mergeSort_perm ..

theorem mem_byName_iff {info : FileInfo} :
    info ∈ byName entries ↔ ∃ name node, (name, node) ∈ entries ∧ info = node.info name := by
  rw [(byName_perm entries).mem_iff, List.mem_map]
  simp [eq_comm]

/-- Entries with names of their own are in strict order. -/
theorem pairwise_byName (h : (entries.map Prod.fst).Nodup) :
    (byName entries).Pairwise fun a b => a.name < b.name := by
  have hsorted : (byName entries).Pairwise fun a b => decide (a.name ≤ b.name) = true := by
    apply List.pairwise_mergeSort
    · intro a b c hab hbc
      rw [decide_eq_true_eq] at hab hbc ⊢
      exact String.le_trans hab hbc
    · intro a b
      simpa using String.le_total a.name b.name
  have hnames : ((byName entries).map name).Nodup := by
    rw [((byName_perm entries).map name).nodup_iff, List.map_map]
    exact h
  have hdistinct : (byName entries).Pairwise fun a b => a.name ≠ b.name :=
    List.pairwise_map.mp hnames
  refine (hsorted.and hdistinct).imp fun ⟨hle, hne⟩ => String.not_le.mp fun hge => ?_
  exact hne (String.le_antisymm (of_decide_eq_true hle) hge)

/-- There is one way to sort entries with names of their own. -/
theorem byName_congr (h : (entries.map Prod.fst).Nodup) (hperm : order.Perm entries) :
    byName order = byName entries := by
  have horder := pairwise_byName (((hperm.map Prod.fst).nodup_iff).mpr h)
  refine List.Perm.eq_of_pairwise ?_ horder (pairwise_byName h) ?_
  · intro a b _ _ hab hba
    exact absurd hba (String.lt_asymm hab)
  · exact (byName_perm order).trans ((hperm.map _).trans (byName_perm entries).symm)

end FileInfo

/-! ## Rearranged trees -/

namespace ServedDirectory

open FileTree

variable {d : ServedDirectory} {t u : FileTree} {home place : Location}

section

variable (h : t.Rearranged u) (ht : t.Distinct)
include h ht

theorem locate_rearranged (file : String) : u.locate file = t.locate file :=
  (h.sameContents ht).locate file

theorem confine_rearranged (path : String) : d.confine path u = d.confine path t :=
  confine_congr (h.sameContents ht) path

theorem stat_rearranged (path : String) : d.stat path u = d.stat path t := by
  simp only [stat, query, confine_rearranged h ht, FileTree.stat, locate_rearranged h ht,
    h.node?_eq ht]

/-- A listing is the same in whatever order the nodes are stored. -/
theorem readDir_rearranged (path : String) : d.readDir path u = d.readDir path t := by
  have hlist : ∀ file, (u.list file).map FileInfo.byName = (t.list file).map FileInfo.byName := by
    intro file
    rw [list, list, locate_rearranged h ht]
    cases t.locate file with
    | error fault => rfl
    | ok place =>
        have hdir : u.isDirectory place = t.isDirectory place := by
          rw [isDirectory, isDirectory, h.node?_eq ht]
        simp only [bind, Except.bind, hdir]
        split
        · exact congrArg Except.ok (FileInfo.byName_congr (ht.nodup_names place)
            (h.children_perm place))
        · rfl
  show d.query path u (fun file => (u.list file).map FileInfo.byName) =
    d.query path t (fun file => (t.list file).map FileInfo.byName)
  simp only [query, confine_rearranged h ht, hlist]

end

/-- What is described as a directory can be listed. -/
theorem readDir_of_stat {path : String} {info : FileInfo} (h : d.stat path t = .ok info)
    (hkind : info.isDirectory = true) :
    ∃ place, t.canonical (d.resolve path) = .ok place ∧ t.locate (d.resolve path) = .ok place ∧
      t.isDirectory place = true ∧
      d.readDir path t = .ok (FileInfo.byName (t.children place)) := by
  obtain ⟨file, hconfine, hask⟩ := bind_eq_ok_iff.mp h
  obtain rfl := eq_resolve_of_confine hconfine
  obtain ⟨node, hstat, rfl⟩ := map_eq_ok_iff.mp (mapError_eq_ok_iff.mp hask)
  obtain ⟨place, hplace, hnode⟩ := bind_eq_ok_iff.mp hstat
  have hdir : t.isDirectory place = true := by
    split at hnode
    · next node' hthere =>
        obtain rfl := Except.ok.inj hnode
        have hcontent : node'.content.kind = .directory := of_decide_eq_true hkind
        rw [isDirectory, hthere]
        cases hnode' : node'.content <;> simp [hnode', Content.kind] at hcontent ⊢
    · cases hnode
  have hleads := (leads_of_locate hplace).spell (spells_of_confine hconfine)
  refine ⟨place, canonical_eq_ok_iff.mpr hleads, hplace, hdir, ?_⟩
  rw [readDir, query, hconfine]
  simp only [bind, Except.bind, list, hplace, hdir, if_true, Except.map, Except.mapError]
  rfl

/-! ## Every call -/

theorem eq_ok_of_query {α : Type} {path : String} {ask : String → Except IoFault α} {a : α}
    (h : d.query path t ask = .ok a) : ∃ file, ask file = .ok a := by
  obtain ⟨file, -, hask⟩ := bind_eq_ok_iff.mp h
  exact ⟨file, mapError_eq_ok_iff.mp hask⟩

/-- A change leaves a tree distinct if every one that is made does. -/
theorem distinct_change {answer : Except Failure FileTree} (ht : t.Distinct)
    (h : ∀ u, answer = .ok u → u.Distinct) : (change t answer).2.Distinct := by
  cases answer with
  | ok u => exact h u rfl
  | error f => exact ht

theorem distinct_openFile (ht : t.Distinct) (path : String) (mode : OpenMode)
    (permissions : Nat) : (d.openFile path mode permissions t).2.Distinct := by
  unfold openFile
  split
  · next hquery =>
      obtain ⟨file, hopen⟩ := eq_ok_of_query hquery
      exact ht.openFile hopen
  · exact ht

/-- Every call on the storage of a directory leaves at most one node at each location. -/
theorem distinct_of_carries {call : Call} (h : d.storage.Carries call t u) (ht : t.Distinct) :
    u.Distinct := by
  cases h with
  | stat => exact ht
  | readDir => exact ht
  | release => exact ht
  | seek =>
      simp only [storage]
      split <;> exact ht
  | read =>
      simp only [storage]
      split <;> exact ht
  | chmod =>
      refine distinct_change ht fun u hu => ?_
      obtain ⟨file, hmade⟩ := eq_ok_of_query hu
      exact ht.chmod hmade
  | chown =>
      refine distinct_change ht fun u hu => ?_
      obtain ⟨file, hmade⟩ := eq_ok_of_query hu
      exact ht.chown hmade
  | symlink =>
      refine distinct_change ht fun u hu => ?_
      obtain ⟨target, -, hlink⟩ := bind_eq_ok_iff.mp hu
      obtain ⟨file, hmade⟩ := eq_ok_of_query hlink
      exact ht.symlink hmade
  | openFile path mode permissions => exact distinct_openFile ht path mode permissions
  | openAt hopens path mode offset =>
      obtain rfl := Option.some.inj hopens
      have hopened := distinct_openFile ht path mode usualPermissions (d := d)
      unfold openAt
      split
      · next hopen =>
          rw [hopen] at hopened
          exact hopened
      · next hopen =>
          rw [hopen] at hopened
          exact hopened

end ServedDirectory

end FtpControl

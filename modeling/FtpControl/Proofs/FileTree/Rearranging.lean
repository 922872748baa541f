import Mathlib.Data.List.Perm.Lattice
import FtpControl.Proofs.FileTree.Changing
import FtpControl.Proofs.FileTree.Visiting

/-!
# Trees that are stored in some order

A tree that holds one node at each location is the same to every path in whatever order its nodes
are stored. Only the entries of a directory come in that order, and there is one for every order
that they may come in.
-/

namespace FtpControl.FileTree

open scoped List

variable {t u : FileTree} {home place other : Location} {name : String} {node : Node}

/-! ## Distinct locations -/

/-- Whether a tree holds at most one node at each location. -/
def Distinct (t : FileTree) : Prop := (t.entries.map Prod.fst).Nodup

theorem lookup_eq_some_iff_mem {entries : List (Location × Node)}
    (h : (entries.map Prod.fst).Nodup) :
    entries.lookup place = some node ↔ (place, node) ∈ entries := by
  induction entries with
  | nil => simp
  | cons first entries ih =>
      obtain ⟨key, value⟩ := first
      rw [List.map_cons, List.nodup_cons] at h
      rw [List.lookup_cons, List.mem_cons, Prod.mk.injEq]
      by_cases hkey : place = key
      · subst hkey
        have hfresh : (place, node) ∉ entries := fun hmem =>
          h.1 (List.mem_map.mpr ⟨_, hmem, rfl⟩)
        simp [hfresh, eq_comm]
      · have hbeq : (place == key) = false := by simpa using hkey
        simp [hbeq, hkey, ih h.2]

theorem Distinct.node?_eq_some_iff (h : t.Distinct) :
    t.node? place = some node ↔ (place, node) ∈ t.entries := lookup_eq_some_iff_mem h

theorem Distinct.update (h : t.Distinct) (place : Location) (change : Node → Node) :
    (t.update place change).Distinct := by
  have hkeys : (t.update place change).entries.map Prod.fst = t.entries.map Prod.fst := by
    simp [entries, FileTree.update, Function.comp_def]
  rwa [Distinct, hkeys]

theorem Distinct.insert (h : t.Distinct) (hfree : t.node? place = none) (node : Node) :
    (t.insert place node).Distinct := by
  have hentries : (t.insert place node).entries = t.entries ++ [(place, node)] := rfl
  have hfresh : place ∉ t.entries.map Prod.fst := by
    intro hmem
    obtain ⟨⟨_, found⟩, hfound, rfl⟩ := List.mem_map.mp hmem
    rw [h.node?_eq_some_iff.mpr hfound] at hfree
    cases hfree
  rw [Distinct, hentries, List.map_append]
  refine List.nodup_append.mpr ⟨h, List.nodup_singleton _, ?_⟩
  intro key hkey other hother hsame
  rw [List.map_singleton, List.mem_singleton] at hother
  rw [hsame, hother] at hkey
  exact hfresh hkey

section

variable {path : String} (ht : t.Distinct)
include ht

theorem Distinct.chmod {permissions : Nat} (h : t.chmod path permissions = .ok u) :
    u.Distinct := by
  obtain ⟨place, change, -, rfl, -⟩ := chmod_spec h
  exact ht.update place change

theorem Distinct.chown {user : Nat} {group : Option Nat} (h : t.chown path user group = .ok u) :
    u.Distinct := by
  obtain ⟨place, change, -, rfl, -⟩ := chown_spec h
  exact ht.update place change

/-- A link is made only where nothing is. -/
theorem Distinct.symlink {target : String} (h : t.symlink target path = .ok u) : u.Distinct := by
  obtain ⟨directory, name, node, hfree, rfl, -⟩ := symlink_spec h
  exact ht.insert hfree.2.node?_of_free node

theorem Opened.distinct {mode : OpenMode} {handle : FileHandle}
    (h : t.Opened place mode handle u) : u.Distinct := by
  obtain ⟨-, node, -, ⟨-, rfl⟩ | ⟨data, -, rfl | ⟨-, rfl⟩⟩⟩ := h
  · exact ht
  · exact ht
  · exact ht.update place _

theorem Distinct.openFile {mode : OpenMode} {permissions : Nat} {handle : FileHandle}
    (h : t.openFile path mode permissions = .ok (handle, u)) : u.Distinct := by
  by_cases hmode : mode.create = true
  · cases openFile_creating_spec hmode h with
    | opens _ hopened => exact hopened.distinct ht
    | makes hleads _ hmade =>
        rw [hmade]
        exact ht.insert hleads.2.node?_of_free _
  · obtain ⟨place, -, hopened⟩ := openFile_spec (by simpa using hmode) h
    exact hopened.distinct ht

end

/-! ## Entries of a directory -/

theorem childName?_eq_some_iff : childName? home place = some name ↔ place = home ++ [name] := by
  unfold childName?
  constructor
  · intro h
    split at h
    · split at h
      · next hplace =>
          obtain rfl := Option.some.inj h
          exact hplace
      · cases h
    · cases h
  · rintro rfl
    simp

theorem childName?_append (home : Location) (name : String) :
    childName? home (home ++ [name]) = some name := childName?_eq_some_iff.mpr rfl

theorem mem_children_iff : (name, node) ∈ t.children home ↔ (home ++ [name], node) ∈ t.nodes := by
  rw [children, List.mem_filterMap]
  constructor
  · rintro ⟨⟨place, node'⟩, hmem, hchild⟩
    obtain ⟨name', hname, heq⟩ := Option.map_eq_some_iff.mp hchild
    obtain ⟨rfl, rfl⟩ := Prod.mk.inj heq
    rwa [← childName?_eq_some_iff.mp hname]
  · intro hmem
    exact ⟨_, hmem, by simp only [childName?_append, Option.map_some]⟩

/-- The entries of a directory, with their locations, are the nodes that have a name in it. -/
theorem map_children (t : FileTree) (home : Location) :
    ((t.children home).map fun (name, node) => (home ++ [name], node)) =
      t.nodes.filter fun entry => (childName? home entry.1).isSome := by
  rw [children, List.map_filterMap, ← List.filterMap_eq_filter]
  refine congrArg (fun f => t.nodes.filterMap f) (funext ?_)
  rintro ⟨place, node⟩
  cases hname : childName? home place with
  | none => simp [hname, Option.guard]
  | some name =>
      obtain rfl := childName?_eq_some_iff.mp hname
      simp [hname, Option.guard]

theorem Distinct.mem_children_iff (h : t.Distinct) :
    (name, node) ∈ t.children home ↔ t.node? (home ++ [name]) = some node := by
  rw [FileTree.mem_children_iff, h.node?_eq_some_iff, entries, List.mem_cons, Prod.mk.injEq]
  simp

theorem Distinct.nodup_names (h : t.Distinct) (home : Location) :
    ((t.children home).map Prod.fst).Nodup := by
  have hplaces : (((t.children home).map fun (name, node) => (home ++ [name], node)).map
      Prod.fst).Nodup := by
    rw [map_children]
    exact ((List.nodup_cons.mp h).2).sublist (List.filter_sublist.map Prod.fst)
  rw [List.map_map] at hplaces
  refine List.Nodup.of_map (fun name => home ++ [name]) ?_
  rwa [List.map_map]

/-! ## Nodes in another order -/

/-- Whether a tree is another one with its nodes in some order. -/
inductive Rearranged (t : FileTree) : FileTree → Prop where
  | intro {nodes} (h : nodes.Perm t.nodes) : Rearranged t { t with nodes }

namespace Rearranged

variable (h : t.Rearranged u)
include h

theorem entries_perm : u.entries.Perm t.entries := by
  cases h with
  | intro hnodes => exact hnodes.cons _

theorem children_perm (home : Location) : (u.children home).Perm (t.children home) := by
  cases h with
  | intro hnodes => exact hnodes.filterMap _

theorem distinct (ht : t.Distinct) : u.Distinct :=
  ((h.entries_perm.map Prod.fst).nodup_iff).mpr ht

theorem node?_eq (ht : t.Distinct) (place : Location) : u.node? place = t.node? place := by
  refine Option.ext fun node => ?_
  rw [(h.distinct ht).node?_eq_some_iff, ht.node?_eq_some_iff, h.entries_perm.mem_iff]

theorem sameContents (ht : t.Distinct) : SameContents t u := by
  refine ⟨?_, fun place => ?_⟩
  · cases h
    rfl
  · rw [content?, content?, h.node?_eq ht]

end Rearranged

/-- The entries of a directory come in any order in some rearrangement of a tree. -/
theorem exists_rearranged {order : List (String × Node)} (h : order.Perm (t.children home)) :
    ∃ u, t.Rearranged u ∧ u.children home = order := by
  let here := order.map fun (name, node) => (home ++ [name], node)
  let elsewhere := t.nodes.filter fun entry => !(childName? home entry.1).isSome
  have hperm : (here ++ elsewhere).Perm t.nodes :=
    calc here ++ elsewhere
      _ ~ (t.nodes.filter fun entry => (childName? home entry.1).isSome) ++ elsewhere := by
        rw [← map_children]
        exact (h.map _).append_right _
      _ ~ t.nodes := List.filter_append_perm _ _
  have hhere : here.filterMap (fun entry => (childName? home entry.1).map fun name =>
      (name, entry.2)) = order := by
    simp [here, List.filterMap_map, childName?_append]
  have helsewhere : elsewhere.filterMap (fun entry => (childName? home entry.1).map fun name =>
      (name, entry.2)) = [] := by
    rw [List.filterMap_eq_nil_iff]
    intro entry hentry
    simpa using (List.mem_filter.mp hentry).2
  refine ⟨_, .intro hperm, ?_⟩
  calc (here ++ elsewhere).filterMap _
    _ = order ++ [] := by rw [List.filterMap_append, hhere, helsewhere]
    _ = order := List.append_nil _

end FtpControl.FileTree

import FtpControl.Proofs.FileTree.Leading

/-!
# Changes of a tree

Each operation looks at, or changes, the one place that its path leads to; only a link that is made
is put where its path leads to nothing. A change at a place in a directory leaves everything
outside that directory as it was, and every path still leads where it led.
-/

namespace FtpControl

namespace FileTree

variable {t u : FileTree} {home place : Location}

/-! ## Nodes after a change -/

theorem node?_top (t : FileTree) : t.node? [] = some t.top := rfl

theorem node?_of_ne (t : FileTree) {other : Location} (h : other ≠ []) :
    t.node? other = t.nodes.lookup other := by
  have hbeq : (other == []) = false := by simpa using h
  rw [node?, entries, List.lookup_cons, hbeq]

theorem lookup_update (place : Location) (change : Node → Node) (other : Location)
    (nodes : List (Location × Node)) :
    (nodes.map fun entry =>
      (entry.1, if entry.1 = place then change entry.2 else entry.2)).lookup other =
      if other = place then (nodes.lookup other).map change else nodes.lookup other := by
  induction nodes with
  | nil => simp
  | cons first nodes ih =>
      obtain ⟨key, node⟩ := first
      rw [List.map_cons, List.lookup_cons, List.lookup_cons, ih]
      by_cases hkey : other = key
      · subst hkey
        by_cases hplace : other = place <;> simp [hplace]
      · have hbeq : (other == key) = false := by simpa using hkey
        simp only [hbeq]

theorem node?_update (t : FileTree) (place : Location) (change : Node → Node) (other : Location) :
    (t.update place change).node? other =
      if other = [] then some (t.update place change).top
      else if other = place then (t.node? other).map change else t.node? other := by
  by_cases hother : other = []
  · rw [if_pos hother, hother, node?_top]
  · rw [if_neg hother, node?_of_ne _ hother, node?_of_ne _ hother]
    exact lookup_update place change other t.nodes

theorem node?_insert_of_some (t : FileTree) (new : Node) {node : Node} {other : Location}
    (h : t.node? other = some node) : (t.insert place new).node? other = some node := by
  by_cases hother : other = []
  · subst hother
    exact h
  · rw [node?_of_ne _ hother] at h ⊢
    simp [insert, List.lookup_append, h]

theorem node?_insert_of_none (new : Node) (h : t.node? place = none) :
    (t.insert place new).node? place = some new := by
  have hplace : place ≠ [] := by
    rintro rfl
    cases h
  rw [node?_of_ne _ hplace] at h ⊢
  simp [insert, List.lookup_append, h]

/-! ## What lies outside a directory, and inside -/

/-- The nodes outside a directory. -/
def outside (home : Location) (t : FileTree) : List (Location × Node) :=
  t.entries.filter fun entry => !home.isPrefixOf entry.1

theorem filter_update (hbelow : home <+: place) (change : Node → Node)
    (nodes : List (Location × Node)) :
    ((nodes.map fun entry =>
      (entry.1, if entry.1 = place then change entry.2 else entry.2)).filter
        fun entry => !home.isPrefixOf entry.1) =
      nodes.filter fun entry => !home.isPrefixOf entry.1 := by
  induction nodes with
  | nil => rfl
  | cons first nodes ih =>
      obtain ⟨key, node⟩ := first
      rw [List.map_cons, List.filter_cons, List.filter_cons, ih]
      by_cases hkey : key = place
      · have hin : home.isPrefixOf key = true := by
          rw [hkey]
          exact List.isPrefixOf_iff_prefix.mpr hbelow
        simp [hin]
      · simp [hkey]

theorem outside_update (hbelow : home <+: place) (change : Node → Node) :
    (t.update place change).outside home = t.outside home := by
  have hnodes : ((t.update place change).nodes.filter fun entry => !home.isPrefixOf entry.1) =
      t.nodes.filter fun entry => !home.isPrefixOf entry.1 :=
    filter_update hbelow change t.nodes
  rw [outside, outside, entries, entries, List.filter_cons, List.filter_cons, hnodes]
  cases home with
  | nil => rfl
  | cons name home =>
      -- The top is not below a directory that has a name.
      have hplace : place ≠ [] := by
        rintro rfl
        cases List.prefix_nil.mp hbelow
      have htop : (t.update place change).top = t.top := by simp [top, update, hplace]
      rw [htop]

theorem outside_insert (hbelow : home <+: place) (node : Node) :
    (t.insert place node).outside home = t.outside home := by
  have hin : home.isPrefixOf place = true := List.isPrefixOf_iff_prefix.mpr hbelow
  have hentries : (t.insert place node).entries = t.entries ++ [(place, node)] := rfl
  rw [outside, outside, hentries, List.filter_append]
  simp [hin]

theorem lookup_filter (keeps : Location → Bool) (hkeeps : keeps place = true)
    (nodes : List (Location × Node)) :
    (nodes.filter fun entry => keeps entry.1).lookup place = nodes.lookup place := by
  induction nodes with
  | nil => rfl
  | cons first nodes ih =>
      obtain ⟨key, node⟩ := first
      rw [List.filter_cons, List.lookup_cons]
      by_cases hkey : place = key
      · subst hkey
        simp [hkeeps]
      · have hbeq : (place == key) = false := by simpa using hkey
        by_cases hkept : keeps key = true
        · simp [hkept, List.lookup_cons, hbeq, ih]
        · simp [hkept, hbeq, ih]

/-- What is outside a directory is found as before, when it has stayed as it was. -/
theorem node?_of_outside (h : u.outside home = t.outside home) (hout : ¬ home <+: place) :
    u.node? place = t.node? place := by
  have hkept : (!home.isPrefixOf place) = true := by
    rw [Bool.not_eq_true', ← Bool.not_eq_true, List.isPrefixOf_iff_prefix]
    exact hout
  have hlookup := lookup_filter (fun other => !home.isPrefixOf other) hkept
  rw [node?, node?, ← hlookup t.entries, ← hlookup u.entries]
  exact congrArg (List.lookup place) h

/-- The nodes in a directory, or below, with the directory itself. -/
def below (home : Location) (t : FileTree) : List (Location × Node) :=
  t.entries.filter fun entry => home.isPrefixOf entry.1

/-- What is in a directory that two trees have in common is the same in both. -/
theorem node?_of_below (h : u.below home = t.below home) (hbelow : home <+: place) :
    u.node? place = t.node? place := by
  have hlookup := lookup_filter home.isPrefixOf (List.isPrefixOf_iff_prefix.mpr hbelow)
  rw [node?, node?, ← hlookup t.entries, ← hlookup u.entries]
  exact congrArg (List.lookup place) h

theorem childName?_eq_none {directory other : Location} (h : ¬ directory <+: other) :
    childName? directory other = none := by
  unfold childName?
  split
  · rw [if_neg]
    rintro rfl
    exact h (List.prefix_append ..)
  · rfl

theorem children_of_below (h : u.below home = t.below home) (hbelow : home <+: place) :
    u.children place = t.children place := by
  have hin : ∀ v : FileTree, v.children place = (v.below home).filterMap fun entry =>
      (childName? place entry.1).map fun name => (name, entry.2) := by
    intro v
    have hentries : v.children place = v.entries.filterMap fun entry =>
        (childName? place entry.1).map fun name => (name, entry.2) := rfl
    rw [hentries, below, List.filterMap_filter]
    refine congrArg (fun f => v.entries.filterMap f) (funext ?_)
    rintro ⟨other, node⟩
    by_cases hplace : place <+: other
    · simp [List.isPrefixOf_iff_prefix.mpr (hbelow.trans hplace)]
    · simp [childName?_eq_none hplace]
  rw [hin, hin, h]

/-- The changes in a directory: of a node that stays what it is to walks, or by a new node. -/
inductive Changes (home : Location) (t : FileTree) : FileTree → Prop where
  | none : Changes home t t
  | update {place : Location} {change : Node → Node} (hbelow : home <+: place)
      (hchange : ∀ {node}, t.node? place = some node →
        Alike node.content (change node).content) : Changes home t (t.update place change)
  | insert {place : Location} (hbelow : home <+: place) (node : Node) :
      Changes home t (t.insert place node)

theorem Changes.outside (h : Changes home t u) : u.outside home = t.outside home := by
  cases h with
  | none => rfl
  | update hbelow => exact outside_update hbelow _
  | insert hbelow => exact outside_insert hbelow _

theorem grows_insert (t : FileTree) (place : Location) (node : Node) :
    Grows t (t.insert place node) :=
  ⟨rfl, fun hnode => ⟨_, node?_insert_of_some t _ hnode, .same _⟩⟩

theorem Changes.grows (h : Changes home t u) : Grows t u := by
  cases h with
  | none => exact ⟨rfl, fun hnode => ⟨_, hnode, .same _⟩⟩
  | insert => exact grows_insert t _ _
  | @update place change _ hchange =>
      refine ⟨rfl, ?_⟩
      intro other node hnode
      rw [node?_update]
      by_cases hother : other = []
      · subst hother
        obtain rfl := Option.some.inj hnode
        exact ⟨_, if_pos rfl, .same _⟩
      · rw [if_neg hother, hnode]
        by_cases hplace : other = place
        · subst hplace
          exact ⟨change node, by simp, hchange hnode⟩
        · exact ⟨node, by simp [hplace], .same _⟩

/-! ## Operations -/

variable {path : String}

theorem stat_spec {node : Node} (h : t.stat path = .ok node) :
    ∃ place, t.Leads .follow path (.taken place) ∧ t.node? place = some node := by
  obtain ⟨place, hplace, hnode⟩ := bind_eq_ok_iff.mp h
  refine ⟨place, leads_of_locate hplace, ?_⟩
  cases hthere : t.node? place with
  | none => simp [hthere] at hnode
  | some node' =>
      simp only [hthere, Except.ok.injEq] at hnode
      rw [hnode]

theorem list_spec {entries : List (String × Node)} (h : t.list path = .ok entries) :
    ∃ place, t.Leads .follow path (.taken place) ∧ t.isDirectory place = true ∧
      entries = t.children place := by
  obtain ⟨place, hplace, hentries⟩ := bind_eq_ok_iff.mp h
  by_cases hdir : t.isDirectory place = true
  · rw [if_pos hdir, Except.ok.injEq] at hentries
    exact ⟨place, leads_of_locate hplace, hdir, hentries.symm⟩
  · simp [hdir] at hentries

theorem find_spec (h : t.find path = .ok place) :
    t.locate path = .ok place ∧ ∃ node, t.node? place = some node := by
  obtain ⟨place', hplace, hthere⟩ := bind_eq_ok_iff.mp h
  split at hthere
  · next hsome =>
      obtain rfl := Except.ok.inj hthere
      exact ⟨hplace, Option.isSome_iff_exists.mp hsome⟩
  · cases hthere

theorem chmod_eq_ok {permissions : Nat} (h : t.chmod path permissions = .ok u) :
    ∃ place node, t.locate path = .ok place ∧ t.node? place = some node ∧
      u = t.update place fun node =>
        { node with permissions := FileInfo.permissions permissions } := by
  obtain ⟨place, hplace, hchange⟩ := bind_eq_ok_iff.mp h
  obtain ⟨hplace, node, hnode⟩ := find_spec hplace
  exact ⟨place, node, hplace, hnode, (Except.ok.inj hchange).symm⟩

theorem chmod_spec {permissions : Nat} (h : t.chmod path permissions = .ok u) :
    ∃ place change, t.Leads .follow path (.taken place) ∧ u = t.update place change ∧
      ∀ node, (change node).content = node.content := by
  obtain ⟨place, -, hplace, -, rfl⟩ := chmod_eq_ok h
  exact ⟨place, _, leads_of_locate hplace, rfl, fun _ => rfl⟩

theorem chown_spec {user : Nat} {group : Option Nat} (h : t.chown path user group = .ok u) :
    ∃ place change, t.Leads .follow path (.taken place) ∧ u = t.update place change ∧
      ∀ node, (change node).content = node.content := by
  obtain ⟨place, hplace, hchange⟩ := bind_eq_ok_iff.mp h
  by_cases hkeeps : (keepsId user && keepsId (group.getD unchangedId)) = true
  · rw [if_pos hkeeps] at hchange
    refine ⟨place, _, leads_of_locate (find_spec hplace).1, (Except.ok.inj hchange).symm, ?_⟩
    intro node
    split <;> rfl
  · simp [hkeeps] at hchange

theorem symlink_short {target link : String} (h : t.symlink target link = .ok u) :
    target.utf8ByteSize ≤ pathLimit ∧ link.utf8ByteSize ≤ pathLimit := by
  unfold symlink at h
  split at h
  · cases h
  · next htarget =>
      obtain ⟨spot, hspot, -⟩ := bind_eq_ok_iff.mp h
      exact ⟨Nat.le_of_not_lt htarget, short_of_reachWithin hspot⟩

theorem symlink_spec {target link : String} (h : t.symlink target link = .ok u) :
    ∃ directory name node, t.Leads .keep link (.free directory name) ∧
      u = t.insert (directory ++ [name]) node ∧ node.content = .link target := by
  unfold symlink at h
  split at h
  · simp at h
  · obtain ⟨spot, hspot, hmade⟩ := bind_eq_ok_iff.mp h
    cases spot with
    | taken place => simp at hmade
    | free directory name =>
        exact ⟨directory, name, _, leads_of_reachWithin hspot, (Except.ok.inj hmade).symm, rfl⟩

/-- Whether a file or a directory was opened that was there, and the tree is as it was, or the file
was emptied. -/
structure Opened (t : FileTree) (place : Location) (mode : OpenMode) (handle : FileHandle)
    (u : FileTree) : Prop where
  handle_eq : handle = ⟨place, 0, mode.read⟩
  node : ∃ node, t.node? place = some node ∧
    (node.content = .directory ∧ u = t ∨
      ∃ data, node.content = .file data ∧
        (u = t ∨ mode.truncate = true ∧ u = t.update place fun node =>
          { node with content := .file [], modified := t.now }))

theorem openNode_spec {mode : OpenMode} {handle : FileHandle}
    (h : t.openNode place mode = .ok (handle, u)) : t.Opened place mode handle u := by
  simp only [openNode] at h
  cases hnode : t.node? place with
  | none => simp [hnode] at h
  | some node =>
      simp only [hnode] at h
      cases hcontent : node.content with
      | link target => simp [hcontent] at h
      | special => simp [hcontent] at h
      | directory =>
          simp only [hcontent] at h
          split at h
          · simp at h
          · obtain ⟨rfl, rfl⟩ := Prod.mk.inj (Except.ok.inj h)
            exact ⟨rfl, node, hnode, .inl ⟨hcontent, rfl⟩⟩
      | file data =>
          simp only [hcontent] at h
          by_cases htruncate : mode.truncate = true
          · rw [if_pos htruncate] at h
            obtain ⟨rfl, rfl⟩ := Prod.mk.inj (Except.ok.inj h)
            exact ⟨rfl, node, hnode, .inr ⟨data, hcontent, .inr ⟨htruncate, rfl⟩⟩⟩
          · rw [if_neg htruncate] at h
            obtain ⟨rfl, rfl⟩ := Prod.mk.inj (Except.ok.inj h)
            exact ⟨rfl, node, hnode, .inr ⟨data, hcontent, .inl rfl⟩⟩

/-- Opening a file or a directory changes no more than the file. -/
theorem Opened.changes {mode : OpenMode} {handle : FileHandle} (h : t.Opened place mode handle u)
    (hbelow : home <+: place) : Changes home t u := by
  obtain ⟨-, node, hnode, ⟨-, rfl⟩ | ⟨data, hdata, rfl | ⟨-, rfl⟩⟩⟩ := h
  · exact .none
  · exact .none
  · refine .update hbelow ?_
    intro node' hnode'
    obtain rfl := Option.some.inj (hnode.symm.trans hnode')
    rw [hdata]
    exact .files data []

theorem Opened.eq_of_whole {mode : OpenMode} {handle : FileHandle}
    (h : t.Opened place mode handle u) (hwhole : mode.truncate = false) : u = t := by
  obtain ⟨-, node, -, ⟨-, rfl⟩ | ⟨data, -, rfl | ⟨htruncate, -⟩⟩⟩ := h
  · rfl
  · rfl
  · simp [hwhole] at htruncate

/-- Opening a file that need not be made opens what the path leads to. -/
theorem openFile_eq {mode : OpenMode} (hmode : mode.create = false) (t : FileTree) (path : String)
    (permissions : Nat) :
    t.openFile path mode permissions =
      (checkMode mode >>= fun _ => t.locate path >>= fun place => t.openNode place mode) := by
  rw [openFile, hmode, locate]
  simp only [Bool.false_eq_true, if_false]
  cases checkMode mode with
  | error fault => rfl
  | ok _ =>
      cases t.reachWithin .follow path with
      | error fault => rfl
      | ok spot => cases spot <;> rfl

theorem openFile_spec {mode : OpenMode} {permissions : Nat} {handle : FileHandle}
    (hmode : mode.create = false) (h : t.openFile path mode permissions = .ok (handle, u)) :
    ∃ place, t.Leads .follow path (.taken place) ∧ t.Opened place mode handle u := by
  rw [openFile_eq hmode] at h
  obtain ⟨-, -, h⟩ := bind_eq_ok_iff.mp h
  obtain ⟨place, hplace, hopen⟩ := bind_eq_ok_iff.mp h
  exact ⟨place, leads_of_locate hplace, openNode_spec hopen⟩

/-- What opening comes to that may make a file. -/
inductive OpensOrMakes (t : FileTree) (path : String) (mode : OpenMode) (permissions : Nat)
    (handle : FileHandle) (u : FileTree) : Prop where
  | opens {there : Location} (hleads : t.Leads .create path (.taken there))
      (hopened : t.Opened there mode handle u)
  | makes {directory : Location} {name : String}
      (hleads : t.Leads .create path (.free directory name))
      (hhandle : handle = ⟨directory ++ [name], 0, mode.read⟩)
      (hmade : u = t.insert (directory ++ [name]) ⟨.file [], granted permissions, t.now⟩)

/-- What is opened or made is where the path leads, links followed, and the tree changes there. -/
theorem OpensOrMakes.spot {mode : OpenMode} {permissions : Nat} {handle : FileHandle}
    (h : t.OpensOrMakes path mode permissions handle u) :
    ∃ spot, t.Leads .follow path spot ∧ handle.place = spot.location ∧
      (home <+: spot.location → Changes home t u) := by
  cases h with
  | opens hleads hopened =>
      exact ⟨_, hleads.follow nofun, by rw [hopened.handle_eq]; rfl, hopened.changes⟩
  | makes hleads hhandle hmade =>
      refine ⟨_, hleads.follow nofun, by rw [hhandle]; rfl, ?_⟩
      intro hbelow
      rw [hmade]
      exact .insert hbelow _

theorem openFile_creating_spec {mode : OpenMode} {permissions : Nat} {handle : FileHandle}
    (hmode : mode.create = true) (h : t.openFile path mode permissions = .ok (handle, u)) :
    t.OpensOrMakes path mode permissions handle u := by
  obtain ⟨-, -, hspot⟩ := bind_eq_ok_iff.mp h
  obtain ⟨spot, hspot, hopen⟩ := bind_eq_ok_iff.mp hspot
  rw [hmode] at hspot
  have hleads := leads_of_reachWithin hspot
  cases spot with
  | taken place => exact .opens hleads (openNode_spec hopen)
  | free directory name =>
      simp only [hmode, if_true, Except.ok.injEq, create, Prod.mk.injEq] at hopen
      exact .makes hleads hopen.1.symm hopen.2.symm

end FileTree

end FtpControl

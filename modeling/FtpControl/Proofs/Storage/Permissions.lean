import FtpControl.Proofs.Storage.Linking

/-!
# Permissions read back

New permissions are shown under every path that leads to the changed place, and that the system
takes, and under no other path. All paths lead where they led.
-/

namespace FtpControl

namespace FileTree

variable {t : FileTree} {place : Location}

/-- The permissions change at one place, the top included. -/
theorem node?_update_permissions (t : FileTree) (place : Location) (permissions : Nat)
    (other : Location) :
    (t.update place fun node => { node with permissions }).node? other =
      (t.node? other).map fun node =>
        if other = place then { node with permissions } else node := by
  rw [node?_update]
  by_cases htop : other = []
  · subst htop
    rw [if_pos rfl, node?_top]
    by_cases hplace : place = []
    · simp [top, update, hplace]
    · simp [top, update, hplace, Ne.symm hplace]
  · rw [if_neg htop]
    by_cases hother : other = place <;> simp [hother]

theorem sameContents_update_permissions (t : FileTree) (place : Location) (permissions : Nat) :
    SameContents t (t.update place fun node => { node with permissions }) := by
  refine ⟨rfl, fun other => ?_⟩
  rw [content?, node?_update_permissions, content?, Option.map_map]
  refine congrArg (fun f => (t.node? other).map f) (funext fun node => ?_)
  by_cases hother : other = place <;> simp [hother]

end FileTree

/-! ## What is shown -/

/-- Whether a description is another one with other permission bits, in its line of facts, too. -/
structure FileInfo.ReadsBack (before after : FileInfo) (permissions : Nat) : Prop where
  mode : ∃ kindBits old, before.mode = some (kindBits * 0o10000 + old) ∧ old < 0o10000 ∧
    after = { before with mode := some (kindBits * 0o10000 + permissions) }
  facts : ∃ front old,
    before.factLine = front ++ "UNIX.mode=" ++ Numeral.octal 4 old ++ "; " ++ before.name ∧
    after.factLine = front ++ "UNIX.mode=" ++ Numeral.octal 4 permissions ++ "; " ++ before.name

namespace Node

theorem exists_typeBits (content : Content) :
    ∃ kindBits, content.typeBits = kindBits * 0o10000 := by
  cases content with
  | file => exact ⟨8, rfl⟩
  | directory => exact ⟨4, rfl⟩
  | link => exact ⟨10, rfl⟩
  | special => exact ⟨12, rfl⟩

theorem permissions_mode (node : Node) :
    FileInfo.permissions (node.content.typeBits + FileInfo.permissions node.permissions) =
      FileInfo.permissions node.permissions := by
  obtain ⟨kindBits, hbits⟩ := exists_typeBits node.content
  rw [hbits]
  unfold FileInfo.permissions
  omega

/-- The facts of a node end in its permissions and its name. -/
theorem factLine_info (node : Node) (name : String) :
    (node.info name).factLine =
      "type=" ++ node.content.kind.fact ++ ";size=" ++ toString node.content.size ++ ";" ++
        ("modify=" ++ node.modified.compact ++ ";") ++ "UNIX.mode=" ++
        Numeral.octal 4 (FileInfo.permissions node.permissions) ++ "; " ++ name := by
  have hend : ∀ a b c : String, a ++ ("UNIX.mode=" ++ b ++ ";") ++ " " ++ c =
      a ++ "UNIX.mode=" ++ b ++ "; " ++ c := by
    intro a b c
    apply String.toList_injective
    simp
  rw [← hend, ← permissions_mode]
  rfl

theorem info_readsBack (node : Node) (name : String) (permissions : Nat) :
    (node.info name).ReadsBack
      (Node.info { node with permissions := FileInfo.permissions permissions } name)
      (FileInfo.permissions permissions) := by
  have hsame : FileInfo.permissions (FileInfo.permissions permissions) =
      FileInfo.permissions permissions := Nat.mod_mod ..
  constructor
  · obtain ⟨kindBits, hbits⟩ := exists_typeBits node.content
    refine ⟨kindBits, FileInfo.permissions node.permissions, ?_, Nat.mod_lt _ (by decide), ?_⟩
    · rw [← hbits]
      rfl
    · simp only [Node.info, hsame, hbits]
  · refine ⟨_, _, factLine_info node name, ?_⟩
    rw [factLine_info, hsame]
    rfl

end Node

namespace ServedDirectory

open FileTree

variable {d : ServedDirectory} {t u : FileTree} {home place : Location} {path : String}

/-- In trees with the same contents the same paths are let pass. -/
theorem confine_congr (h : SameContents t u) (path : String) :
    d.confine path u = d.confine path t := by
  have hjudged : d.destination path u = d.destination path t := by
    rw [destination, destination, h.canonical, h.canonical]
  rw [confine, confine, h.canonical, hjudged]

/-- The path of a changed node was let pass, and leads to that node. -/
theorem chmod_place {permissions : Nat} (h : d.chmod path permissions t = .ok u) :
    ∃ home place node, t.canonical d.root = .ok home ∧ d.Inside home t path place ∧
      t.node? place = some node ∧
      u = t.update place fun node =>
        { node with permissions := FileInfo.permissions permissions } := by
  cases hhome : t.canonical d.root with
  | error fault => cases (query_of_error hhome path _).symm.trans h
  | ok home =>
      obtain ⟨hask, judged, hjudged, hbelow⟩ := query_spec hhome h
      obtain ⟨place, node, hplace, hnode, rfl⟩ := chmod_eq_ok hask
      have hinside := inside_of_destination hjudged hbelow (leads_of_locate hplace)
      exact ⟨home, place, node, rfl, hinside, hnode, rfl⟩

/-- New permissions are read back, with all else as it was, under every path that leads to the same
place as the one of the request, if the system takes it; what is told of any other path stays. -/
theorem chmod_read_back (d : ServedDirectory) (t : FileTree) {path : String} {permissions : Nat}
    {u : FileTree} (h : d.chmod path permissions t = .ok u) :
    ∃ place, t.canonical (d.resolve path) = .ok place ∧ ∀ other,
      (t.canonical (d.resolve other) = .ok place →
        (d.resolve other).utf8ByteSize ≤ pathLimit →
        ∃ before after, d.stat other t = .ok before ∧ d.stat other u = .ok after ∧
          before.ReadsBack after (permissions % 0o10000)) ∧
      (t.canonical (d.resolve other) ≠ .ok place ∨
        pathLimit < (d.resolve other).utf8ByteSize → d.stat other u = d.stat other t) := by
  obtain ⟨home, place, node, hhome, hinside, hnode, hu⟩ := chmod_place h
  have hnodes : ∀ other, u.node? other = (t.node? other).map fun node =>
      if other = place then { node with permissions := FileInfo.permissions permissions }
      else node :=
    hu ▸ node?_update_permissions t place (FileInfo.permissions permissions)
  have hsame : SameContents t u := hu ▸ sameContents_update_permissions t place _
  refine ⟨place, hinside.canonical, fun other => ⟨?_, ?_⟩⟩
  · intro hplace hshort
    have hchanged : u.node? place =
        some { node with permissions := FileInfo.permissions permissions } := by
      rw [hnodes, hnode, Option.map_some, if_pos rfl]
    have hinside' : d.Inside home u other place :=
      ⟨(hsame.canonical _).trans hplace, hinside.below⟩
    exact ⟨_, _, stat_of_inside hhome ⟨hplace, hinside.below⟩ hshort hnode,
      stat_of_inside ((hsame.canonical _).trans hhome) hinside' hshort hchanged,
      node.info_readsBack _ permissions⟩
  · intro helse
    rw [stat, stat, query, query, confine_congr hsame]
    cases hconfine : d.confine other t with
    | error f => rfl
    | ok file =>
        obtain rfl := eq_resolve_of_confine hconfine
        refine congrArg (fun answer => (Except.map _ answer).mapError _) ?_
        rw [FileTree.stat, FileTree.stat, hsame.locate]
        cases hlocate : t.locate (d.resolve other) with
        | error fault => rfl
        | ok there =>
            have hthere : there ≠ place := by
              rintro rfl
              have hleads := (leads_of_locate hlocate).spell (spells_of_confine hconfine)
              rcases helse with hplace | hlong
              · exact hplace (canonical_eq_ok_iff.mpr hleads)
              · exact absurd (short_of_locate hlocate) (Nat.not_le.mpr hlong)
            have hstays : u.node? there = t.node? there := by
              rw [hnodes]
              simp [hthere]
            simp only [bind, Except.bind, hstays]

/-- Permissions set under a link are told of the file that it leads to. -/
theorem chmod_read_back_alias :
    let d : ServedDirectory := ⟨"/r"⟩
    let file (permissions : Nat) : Node := { content := .file [1], permissions }
    let t (permissions : Nat) : FileTree :=
      { nodes := [(["r"], { content := .directory, permissions := 0o755 }),
          (["r", "f"], file permissions),
          (["r", "k"], { content := .link "f", permissions := 0o777 })] }
    d.chmod "k" 0o104600 (t 0o644) = .ok (t 0o4600) ∧
      (t 0o644).canonical (d.resolve "f") = .ok ["r", "f"] ∧
      (d.resolve "f").utf8ByteSize ≤ pathLimit ∧
      ∃ before after, d.stat "f" (t 0o644) = .ok before ∧ d.stat "f" (t 0o4600) = .ok after ∧
        before.ReadsBack after 0o4600 := by
  intro d file t
  have hchmod : d.chmod "k" 0o104600 (t 0o644) = .ok (t 0o4600) := by cbv
  have hplace : (t 0o644).canonical (d.resolve "f") = .ok ["r", "f"] := by cbv
  have hshort : (d.resolve "f").utf8ByteSize ≤ pathLimit := by decide
  obtain ⟨place, hchanged, hread⟩ := chmod_read_back d (t 0o644) hchmod
  have halias : (t 0o644).canonical (d.resolve "k") = .ok ["r", "f"] := by cbv
  obtain rfl := Except.ok.inj (hchanged.symm.trans halias)
  exact ⟨hchmod, hplace, hshort, (hread "f").1 hplace hshort⟩

/-! ## A path that is too long -/

/-- A name of so many letters. -/
def letters (size : Nat) : String := .ofList (List.replicate size 'k')

theorem size_letters (size : Nat) : (letters size).utf8ByteSize = size := by
  unfold letters
  induction size with
  | zero => rfl
  | succ size ih =>
      have hone : (String.ofList ['k']).utf8ByteSize = 1 := by decide
      rw [List.replicate_succ, ← List.singleton_append, String.ofList_append,
        String.utf8ByteSize_append, ih, hone, Nat.add_comm]

theorem eq_of_mem_letters {size : Nat} {c : Char} (h : c ∈ (letters size).toList) : c = 'k' := by
  unfold letters at h
  rw [String.toList_ofList] at h
  exact List.eq_of_mem_replicate h

theorem isEntryName_letters {size : Nat} (h : 2 < size) : IsEntryName (letters size) := by
  have hne : ∀ part : String, part.utf8ByteSize ≤ 2 → letters size ≠ part := by
    rintro part hpart rfl
    rw [size_letters] at hpart
    exact absurd h (Nat.not_lt.mpr hpart)
  constructor
  · simp only [isName, Bool.and_eq_true, bne_iff_ne]
    exact ⟨⟨hne "" (by decide), hne "." (by decide)⟩, hne ".." (by decide)⟩
  · intro hslash
    exact absurd (eq_of_mem_letters hslash) (by decide)

/-- Below a short name at the top, no name is too far that is not too long. -/
theorem isTooFar_letters {size : Nat} (hshort : size ≤ nameLimit) :
    isTooFar ["r"] (letters size) = false := by
  have hspelled : spelledSize (["r"] ++ [letters size]) ≤ pathLimit := by
    have hone : "r".utf8ByteSize = 1 := by decide
    simp only [List.singleton_append, spelledSize, size_letters, hone]
    unfold pathLimit
    unfold nameLimit at hshort
    omega
  rw [isTooFar, decide_eq_false (Nat.not_lt.mpr hspelled), Bool.and_false]

/-- A directory with a link to itself. -/
def loop (size permissions : Nat) : FileTree :=
  { nodes := [(["r"], { content := .directory, permissions }),
      (["r", letters size], { content := .link ".", permissions := 0o777 })] }

/-- The path that goes round so many times, and once more. -/
def around (size : Nat) : Nat → String
  | 0 => letters size
  | n + 1 => around size n ++ "/" ++ letters size

section

variable {size : Nat} (hsize : 2 < size)
include hsize

theorem isEntryName_of_mem_replicate {n : Nat} :
    ∀ name ∈ List.replicate n (letters size), IsEntryName name := by
  intro name hname
  rw [List.eq_of_mem_replicate hname]
  exact isEntryName_letters hsize

theorem segments_around (n : Nat) :
    segments (around size n) = List.replicate (n + 1) (letters size) := by
  have hsplit : Text.split '/' (around size n) = List.replicate (n + 1) (letters size) := by
    have hslash := (isEntryName_letters hsize).2
    induction n with
    | zero => simp [around, Text.split_of_notMem hslash, List.replicate]
    | succ n ih => rw [around, split_append_slash _ _ hslash, ih, ← List.replicate_succ']
  rw [segments, hsplit, List.filter_eq_self]
  exact fun name hname => (isEntryName_of_mem_replicate hsize name hname).1

/-- With each name the path gets longer. -/
theorem le_size_pathOf (d : ServedDirectory) (n : Nat) :
    n * size ≤ (d.pathOf (List.replicate n (letters size))).utf8ByteSize := by
  induction n with
  | zero => simp
  | succ n ih =>
      rw [List.replicate_succ', pathOf_concat (isEntryName_of_mem_replicate hsize), join,
        Nat.succ_mul]
      split <;> simp only [String.utf8ByteSize_append, size_letters] <;> omega

theorem isPath_pathOf {d : ServedDirectory} (hroot : IsPath d.root) (n : Nat) :
    IsPath (d.pathOf (List.replicate n (letters size))) := by
  refine ⟨?_, pathOf_ne_empty hroot.2 _⟩
  have hnul := hroot.1
  rw [← Bool.not_eq_true, List.contains_iff_mem] at hnul ⊢
  induction n with
  | zero => exact hnul
  | succ n ih =>
      have hletters : '\x00' ∉ (letters size).toList := fun hmem =>
        absurd (eq_of_mem_letters hmem) (by decide)
      rw [List.replicate_succ', pathOf_concat (isEntryName_of_mem_replicate hsize), join]
      split <;> simp [ih, hletters]

/-- Each round ends where it began, over one link. -/
theorem goes_around (hshort : size ≤ nameLimit) (permissions n : Nat) :
    (loop size permissions).Goes n ["r"] (List.replicate n (letters size)) ["r"] := by
  induction n with
  | zero => exact .done
  | succ n ih =>
      have hlook : (loop size permissions).LooksUp .spell ["r"] (letters size)
          (List.replicate n (letters size)) :=
        ⟨rfl, (isEntryName_letters hsize).ordinary, by simp, fun _ => isTooFar_letters hshort,
          by rwa [size_letters]⟩
      have hnode : (loop size permissions).node? (["r"] ++ [letters size]) =
          some { content := .link ".", permissions := 0o777 } := by
        simp [loop, node?, entries, List.lookup_cons]
      have hself : origin ["r"] "." = ["r"] ∧ names "." = ["."] := by decide
      refine .follow hlook hnode rfl (by decide) ?_
      rw [hself.1, hself.2]
      exact .skip rfl (.inr rfl) ih

end

theorem canonical_loop (size permissions : Nat) :
    (loop size permissions).canonical "/r" = .ok ["r"] := by
  have hgoes : (loop size permissions).Goes 0 [] ["r"] ["r"] :=
    .enter ⟨rfl, by decide, by simp, by decide, by decide⟩ rfl nofun .done
  have hlinks : linkLimit = 40 + 0 := rfl
  exact canonical_of_goes ⟨by decide, by decide⟩ hgoes hlinks rfl

theorem chmod_loop (size before permissions : Nat) :
    ServedDirectory.chmod ⟨"/r"⟩ "" permissions (loop size before) =
      .ok (loop size (FileInfo.permissions permissions)) := by
  have hresolve : resolve ⟨"/r"⟩ "" = "/r" := by decide
  have hhome := canonical_loop size before
  have hinside : Inside ⟨"/r"⟩ ["r"] (loop size before) "" ["r"] :=
    ⟨hresolve ▸ hhome, List.prefix_refl _⟩
  have hlocate : (loop size before).locate (resolve ⟨"/r"⟩ "") = .ok ["r"] :=
    hinside.locate (by decide)
  have hnode : (loop size before).node? ["r"] =
      some { content := .directory, permissions := before } := rfl
  have hupdate : (loop size before).update ["r"] (fun node =>
      { node with permissions := FileInfo.permissions permissions }) =
      loop size (FileInfo.permissions permissions) := by
    simp [loop, update]
  rw [ServedDirectory.chmod, query_of_inside hhome hinside, FileTree.chmod, find, hlocate]
  simp [bind, Except.bind, hnode, hupdate, Except.mapError]

/-- The path of a directory that goes round it often enough is too long for the system: its new
permissions are not told under that path, nor were the old ones. -/
theorem chmod_unread_around :
    let d : ServedDirectory := ⟨"/r"⟩
    let path := around 255 16
    d.chmod "" 0o700 (loop 255 0o755) = .ok (loop 255 0o700) ∧
      (loop 255 0o755).canonical (d.resolve "") = .ok ["r"] ∧
      (loop 255 0o755).canonical (d.resolve path) = .ok ["r"] ∧
      d.stat path (loop 255 0o700) = .error ⟨.io, "File name too long (os error 36)"⟩ := by
  intro d path
  have hsize : 2 < 255 := by decide
  have hroot : IsPath d.root := ⟨by decide, by decide⟩
  have hresolve : d.resolve path = d.pathOf (List.replicate 17 (letters 255)) :=
    congrArg d.pathOf (segments_around hsize 16)
  have hhome : ∀ permissions, (loop 255 permissions).canonical d.root = .ok ["r"] :=
    canonical_loop 255
  have hplace : ∀ permissions, (loop 255 permissions).canonical (d.resolve path) = .ok ["r"] := by
    intro permissions
    obtain ⟨horigin, hnames⟩ := properNames_pathOf (d := d) hroot.2
      (isEntryName_of_mem_replicate hsize (n := 17)) []
    have hstart : origin [] d.root = [] ∧ properNames d.root = ["r"] := by decide
    have hlinks : linkLimit = 23 + 17 := rfl
    rw [hresolve]
    refine canonical_of_goes (isPath_pathOf hsize hroot 17) ?_ hlinks rfl
    show Goes _ 17 (origin [] _) _ _
    rw [horigin, hnames, hstart.1, hstart.2]
    exact .enter ⟨rfl, by decide, by simp, by decide, by decide⟩ rfl nofun
      (goes_around hsize (by decide) permissions 17)
  refine ⟨chmod_loop 255 0o755 0o700, hhome _, hplace _, ?_⟩
  have hlong : pathLimit < (d.resolve path).utf8ByteSize := by
    rw [hresolve]
    exact Nat.lt_of_lt_of_le (by decide) (le_size_pathOf hsize d 17)
  have hinside : d.Inside ["r"] (loop 255 0o700) path ["r"] := ⟨hplace _, List.prefix_refl _⟩
  rw [stat, query_of_inside (hhome _) hinside, FileTree.stat,
    (spells_of_canonical (hplace _)).locate_eq, if_pos hlong]
  rfl

end ServedDirectory

end FtpControl

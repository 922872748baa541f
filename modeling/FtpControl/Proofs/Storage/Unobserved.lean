import FtpControl.Proofs.Storage.Confinement
import FtpControl.Proofs.Storage.RangeCauses
import FtpControl.Proofs.Storage.Verdicts

/-!
# What lies outside a served directory

Two trees that have the served directory in common answer every request alike that makes no file,
as long as its paths have the same verdicts in both; and that they have when following them stays
with the directory and those above it. What lies outside shows in the verdicts alone: in whether a
path that leaves the directory can be followed, and in the fault with which it cannot.
-/

namespace FtpControl

namespace ServedDirectory

open FileTree

variable {d : ServedDirectory} {t u : FileTree} {home : Location} {path : String}

/-! ## Answers -/

theorem change_fst (t : FileTree) (changing : Except Failure FileTree) :
    (change t changing).1 = changing.map fun _ => () := by
  cases changing <;> rfl

theorem openFile_fst (d : ServedDirectory) (path : String) (mode : OpenMode) (permissions : Nat)
    (t : FileTree) :
    (d.openFile path mode permissions t).1 =
      (d.query path t fun file => t.openFile file mode permissions).map Prod.fst := by
  unfold openFile
  split <;> next hquery => rw [hquery]; rfl

theorem openAt_fst (d : ServedDirectory) (path : String) (mode : OpenMode) (offset : Nat)
    (t : FileTree) :
    (d.openAt path mode offset t).1 =
      ((d.openFile path mode usualPermissions t).1 >>= fun handle =>
        (FileTree.seek handle offset).mapError IoFault.toFailure) := by
  unfold openAt
  split <;> next hopen => rw [hopen]; rfl

/-- Handles in a directory that two states have in common give the same in both. -/
theorem readsAlike_below (d : ServedDirectory) (home : Location) :
    d.storage.ReadsAlike fun handle t u =>
      home <+: handle.place ∧ u.below home = t.below home where
  read := by
    rintro handle t u ⟨hplace, hbelow⟩ most
    simp only [storage, read_of_below hbelow hplace]
    cases hread : t.read handle most with
    | error fault => exact ⟨rfl, rfl, hplace, hbelow⟩
    | ok given =>
        obtain ⟨bytes, after⟩ := given
        obtain ⟨-, rfl⟩ := read_spec hread
        exact ⟨rfl, rfl, hplace, hbelow⟩

namespace SameInside

variable (h : SameInside d home t u)
include h

/-- A question about a path with the same verdict has the same answer, if the system answers it
alike. -/
theorem query_eq {α β γ : Type} {ask : String → Except IoFault α}
    {ask' : String → Except IoFault β} {f : α → γ} {g : β → γ}
    (hsame : d.verdict home t path = d.verdict home u path)
    (hask : LeadsAlike home t u (d.resolve path) →
      (ask' (d.resolve path)).map g = (ask (d.resolve path)).map f) :
    (d.query path u ask').map g = (d.query path t ask).map f := by
  rw [query, query, ← h.confine_eq hsame]
  cases hconfine : d.confine path t with
  | error f => rfl
  | ok file =>
      obtain rfl := eq_resolve_of_confine hconfine
      show ((ask' _).mapError _).map g = ((ask _).mapError _).map f
      rw [map_mapError, map_mapError, hask (h.leadsAlike hsame hconfine)]

variable (hsame : d.verdict home t path = d.verdict home u path)
include hsame

theorem openFile_eq {mode : OpenMode} (hcreate : mode.create = false) (permissions : Nat) :
    (d.openFile path mode permissions u).1 = (d.openFile path mode permissions t).1 := by
  rw [openFile_fst, openFile_fst]
  exact h.query_eq hsame fun hleads => hleads.openFile h.below hcreate permissions

theorem openAt_eq {mode : OpenMode} (hcreate : mode.create = false) (offset : Nat) :
    (d.openAt path mode offset u).1 = (d.openAt path mode offset t).1 := by
  rw [openAt_fst, openAt_fst, h.openFile_eq hsame hcreate]

theorem digest_eq (a : HashAlgorithm) (range : ByteRange) :
    (Checksum.ofRange d.storage path a range { store := u }).1 =
      (Checksum.ofRange d.storage path a range { store := t }).1 := by
  obtain ⟨left, ht, hu⟩ := h.homes
  have hreadOnly : OpenMode.readOnly.create = false := rfl
  have hsameOpen := h.openAt_eq hsame hreadOnly range.start
  rcases hopen : d.openAt path .readOnly range.start t with ⟨opened, t'⟩
  rcases hopen' : d.openAt path .readOnly range.start u with ⟨opened', u'⟩
  rw [hopen, hopen'] at hsameOpen
  obtain rfl : opened' = opened := hsameOpen
  obtain ⟨-, hstays, hplace⟩ := openAt_inside ht.canonical rfl hopen
  obtain ⟨-, hstays', -⟩ := openAt_inside hu.canonical rfl hopen'
  obtain rfl := hstays rfl
  obtain rfl := hstays' rfl
  unfold Checksum.ofRange
  rw [openRange_of_openAt hopen, openRange_of_openAt hopen']
  split
  · rfl
  · cases opened' with
    | error f => rfl
    | ok handle =>
        obtain ⟨place, hinside, rfl⟩ := hplace handle rfl
        refine congrArg (Except.map DigestEngine.hex) (Eq.symm ?_)
        exact Checksum.stream_congr (readsAlike_below d home) _ ⟨hinside.below, h.below⟩

end SameInside

/-! ## Requests -/

/-- The paths in a request. -/
def Request.paths : Request → List String
  | stat path => [path]
  | readDir path => [path]
  | chmod path _ => [path]
  | chown path _ _ => [path]
  | symlink target link => [target, link]
  | openFile path _ _ => [path]
  | openAt path _ _ => [path]
  | digest path _ _ => [path]

theorem SameInside.symlink_eq {target link : String} (h : SameInside d home t u)
    (htarget : d.verdict home t target = d.verdict home u target)
    (hlink : d.verdict home t link = d.verdict home u link) {γ : Type} (answer : γ) :
    (d.symlink target link u).map (fun _ => answer) =
      (d.symlink target link t).map (fun _ => answer) := by
  rw [symlink, symlink, ← h.confine_eq htarget]
  cases d.confine target t with
  | error f => rfl
  | ok file => exact h.query_eq hlink fun hleads => hleads.symlink file answer

/-- Two trees with the served directory in common give the same answer to a request that makes no
file, if each of its paths stays with the directory and those above it, or has the same verdict in
both trees. -/
theorem outside_unobserved (h : SameInside d home t u) {r : Request} (hno : r.creates = false)
    (hpaths : ∀ path ∈ r.paths,
      Stays home t path ∨ d.verdict home t path = d.verdict home u path) :
    (d.respond t r).1 = (d.respond u r).1 := by
  have hsame : ∀ path ∈ r.paths, d.verdict home t path = d.verdict home u path := by
    intro path hpath
    rcases hpaths path hpath with hstays | hsame
    · exact h.verdict_of_stays hstays
    · exact hsame
  symm
  cases r with
  | stat path =>
      apply h.query_eq (hsame path List.mem_cons_self)
      intro hleads
      rw [map_map, map_map, hleads.stat h.below]
  | readDir path =>
      apply h.query_eq (hsame path List.mem_cons_self)
      intro hleads
      rw [map_map, map_map, hleads.list h.below]
  | chmod path permissions =>
      have hpath := hsame path List.mem_cons_self
      simp only [respond, storage, change_fst, map_map]
      exact h.query_eq hpath fun hleads => hleads.chmod h.below permissions _
  | chown path user group =>
      have hpath := hsame path List.mem_cons_self
      simp only [respond, storage, change_fst, map_map]
      exact h.query_eq hpath fun hleads => hleads.chown h.below user group _
  | symlink target link =>
      have htarget := hsame target List.mem_cons_self
      have hlink := hsame link (List.mem_cons_of_mem target List.mem_cons_self)
      simp only [respond, storage, change_fst, map_map]
      exact h.symlink_eq htarget hlink _
  | openFile path mode permissions =>
      exact congrArg (Except.map Response.opened)
        (h.openFile_eq (hsame path List.mem_cons_self) hno permissions)
  | openAt path mode offset =>
      exact congrArg (Except.map Response.opened)
        (h.openAt_eq (hsame path List.mem_cons_self) hno offset)
  | digest path a range =>
      exact congrArg (Except.map Response.digested)
        (h.digest_eq (hsame path List.mem_cons_self) a range)

/-! ## A directory with a link that leads out -/

/-- A directory `/r` with a file and with a link to the directory `/x`, and more nodes. -/
def linkedOut (beyond : List (Location × Node)) : FileTree where
  nodes :=
    [(["r"], { content := .directory, permissions := 0o755 }),
      (["r", "f"], { content := .file [1], permissions := 0o644 }),
      (["r", "o"], { content := .link "../x", permissions := 0o777 }),
      (["x"], { content := .directory, permissions := 0o755 })] ++ beyond

theorem homes_linkedOut (beyond : List (Location × Node)) :
    Homes ⟨"/r"⟩ ["r"] linkLimit (linkedOut beyond) where
  path := ⟨by decide, by decide⟩
  goes := by
    have hnames : properNames "/r" = ["r"] := by decide
    have hlook : (linkedOut beyond).LooksUp .spell [] "r" [] :=
      ⟨rfl, by decide, by simp, by decide, by decide⟩
    refine ⟨0, rfl, ?_⟩
    show (linkedOut beyond).Goes 0 [] (properNames "/r") ["r"]
    rw [hnames]
    exact .enter hlook rfl nofun .done
  directory := by
    intro above habove
    rcases List.prefix_cons_iff.mp habove with rfl | ⟨rest, rfl, hrest⟩
    · rfl
    · obtain rfl := List.prefix_nil.mp hrest
      rfl

theorem sameInside_linkedOut {beyond beyond' : List (Location × Node)}
    (h : ∀ entry ∈ beyond ++ beyond', ¬ ["r"] <+: entry.1) :
    SameInside ⟨"/r"⟩ ["r"] (linkedOut beyond) (linkedOut beyond') where
  homes := ⟨linkLimit, homes_linkedOut beyond, homes_linkedOut beyond'⟩
  below := by
    have hnone : ∀ nodes : List (Location × Node), (∀ entry ∈ nodes, ¬ ["r"] <+: entry.1) →
        (nodes.filter fun entry => List.isPrefixOf ["r"] entry.1) = [] := by
      intro nodes hout
      rw [List.filter_eq_nil_iff]
      intro entry hentry hin
      exact hout entry hentry (List.isPrefixOf_iff_prefix.mp hin)
    have hentries : ∀ nodes, (linkedOut nodes).entries = (linkedOut []).entries ++ nodes :=
      fun _ => rfl
    rw [List.forall_mem_append] at h
    rw [below, below, hentries beyond, hentries beyond', List.filter_append, List.filter_append,
      hnone beyond h.1, hnone beyond' h.2]

/-- What is in `/x` does not show in the answer to a request on a file and on the link to it. -/
theorem outside_unobserved_beyond :
    let secret : Node := { content := .directory, permissions := 0o700 }
    let t := linkedOut []
    let u := linkedOut [(["x", "a"], secret)]
    let d : ServedDirectory := ⟨"/r"⟩
    let r : Request := .symlink "f" "o"
    SameInside d ["r"] t u ∧ r.creates = false ∧ Stays ["r"] t "f" ∧
      d.verdict ["r"] t "o" = .outside ∧ d.verdict ["r"] u "o" = .outside ∧
      (d.respond t r).1 = (d.respond u r).1 := by
  intro secret t u d r
  have hsame : SameInside d ["r"] t u := sameInside_linkedOut (by decide)
  have hstays : Stays ["r"] t "f" := by
    intro links seen _ hseen
    have hsegments : segments "f" = ["f"] := by decide
    rw [hsegments] at hseen
    have hfile : t.node? ["r", "f"] = some { content := .file [1], permissions := 0o644 } := rfl
    generalize hnames : ["f"] = names at hseen
    cases hseen with
    | here => exact .inl (List.prefix_refl _)
    | entry => exact .inr (List.prefix_append ..)
    | skip _ hname =>
        rw [← (List.cons.inj hnames).1] at hname
        exact absurd hname (by decide)
    | up => exact absurd (List.cons.inj hnames).1 (by decide)
    | follow _ hnode hlink =>
        obtain ⟨rfl, rfl⟩ := List.cons.inj hnames
        obtain rfl := Option.some.inj (hfile.symm.trans hnode)
        cases hlink
    | enter _ _ _ hseen =>
        obtain ⟨rfl, rfl⟩ := List.cons.inj hnames
        cases hseen
  have ht : d.verdict ["r"] t "o" = .outside := by cbv
  have hu : d.verdict ["r"] u "o" = .outside := by cbv
  refine ⟨hsame, rfl, hstays, ht, hu, ?_⟩
  apply outside_unobserved hsame rfl
  intro path hpath
  simp only [r, Request.paths, List.mem_cons, List.not_mem_nil, or_false] at hpath
  rcases hpath with rfl | rfl
  · exact .inl hstays
  · exact .inr (ht.trans hu.symm)

/-- Whether `/x` has a directory `a` shows in the answer to a request on a path through it. -/
theorem outside_shows_in_faults :
    let t := linkedOut []
    let u := linkedOut [(["x", "a"], { content := .directory, permissions := 0o700 })]
    let d : ServedDirectory := ⟨"/r"⟩
    SameInside d ["r"] t u ∧
      (∀ entry ∈ t.nodes ++ u.nodes, ¬ ["r"] <+: entry.1 → entry.2.content = .directory) ∧
      (d.respond t (.stat "o/a/b")).1 = .error (IoFault.system .noEntry).toFailure ∧
      (d.respond u (.stat "o/a/b")).1 = .error (.outsideRoot "o/a/b") := by
  intro t u d
  have hsegments : segments "o/a/b" ≠ [] := by decide
  have hpath : IsPath (d.resolve "o/a/b") := ⟨by decide, by decide⟩
  have hnames : names (d.resolve "o/a/b") = ["r", "o", "a", "b"] := by decide
  have hpath' : IsPath (d.pathOf (segments "o/a/b").dropLast) := ⟨by decide, by decide⟩
  have hnames' : names (d.pathOf (segments "o/a/b").dropLast) = ["r", "o", "a"] := by decide
  have hwhole : ∀ v ∈ [t, u], v.canonical (d.resolve "o/a/b") = .error (.system .noEntry) := by
    intro v hv
    rw [canonical_eq hpath, hnames]
    rcases List.mem_pair.mp hv with rfl | rfl <;> cbv
  have ht : d.destination "o/a/b" t = .error (.system .noEntry) := by
    rw [destination_of_noEntry (hwhole t (by simp)) hsegments, canonical_eq hpath', hnames']
    cbv
  have hu : d.destination "o/a/b" u = .ok ["x", "a"] := by
    rw [destination_of_noEntry (hwhole u (by simp)) hsegments, canonical_eq hpath', hnames']
    cbv
  have hconfine := (Judged.failed ht).confine_eq (homes_linkedOut _).canonical
  have hconfine' := (Judged.outside hu (by decide)).confine_eq (homes_linkedOut _).canonical
  refine ⟨sameInside_linkedOut (by decide), by decide, ?_, ?_⟩
  · rw [respond, stat, query, hconfine]
    rfl
  · rw [respond, stat, query, hconfine']
    rfl

end ServedDirectory

end FtpControl

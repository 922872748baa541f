import Mathlib
import FtpControl.Proofs.Storage.Confining

/-!
# Confinement

Requests to a served directory, one after the other: as long as none of them makes files, nothing
outside the directory changes, and every answer is about something in the directory, or below. The
links that the requests themselves make are no way out.
-/

namespace FtpControl

/-! ## Digests that leave the storage alone -/

section

variable {σ κ : Type} {st : Storage σ κ} {l : Ledger σ}

/-- Whether handles can be read, moved and given back without a change of the storage. -/
structure Storage.Still (st : Storage σ κ) : Prop where
  read : ∀ h most s, (st.read h most s).2.2 = s
  release : ∀ h s, st.release h s = s

namespace Checksum

theorem store_stream (hstill : st.Still) (total remaining : Nat) (h : κ) (engine : DigestEngine)
    (l : Ledger σ) : (stream st total remaining h engine l).2.2.store = l.store := by
  have hread : ∀ {h want p l l'}, Ledger.read st h want l = (p, l') → l'.store = l.store := by
    intro h want p l l' hread
    have hstore := congrArg (fun q => q.2.store) hread
    rw [← hstore]
    exact hstill.read h want l.store
  fun_induction stream with
  | case1 => rfl
  | case2 _ _ _ _ _ _ _ _ _ hstep => exact hread hstep
  | case3 _ _ _ _ _ _ _ _ _ hstep => exact hread hstep
  | case4 _ _ _ _ _ _ _ _ _ hstep _ _ _ ih => exact ih.trans (hread hstep)

theorem store_ofRange (hstill : st.Still) (path : String) (a : HashAlgorithm) (range : ByteRange)
    (hopen : (openRange st path range.start l).2.store = l.store) :
    (ofRange st path a range l).2.store = l.store := by
  unfold ofRange
  split
  · rfl
  · rcases hopened : openRange st path range.start l with ⟨f | h, l₁⟩
    · rwa [hopened] at hopen
    · rw [hopened] at hopen
      have hstream := store_stream hstill (range.stop - range.start) (range.stop - range.start) h
        (.start a) l₁
      exact (hstill.release _ _).trans (hstream.trans hopen)

end Checksum

end

namespace FileTree

/-- The bytes of a file; a place with something else has none. -/
def dataAt (t : FileTree) (place : Location) : List UInt8 :=
  match (t.node? place).map Node.content with
  | some (.file data) => data
  | _ => []

theorem read_spec {t : FileTree} {handle handle' : FileHandle} {most : Nat} {bytes : List UInt8}
    (h : t.read handle most = .ok (bytes, handle')) :
    bytes = ((t.dataAt handle.place).drop handle.position).take most ∧
      handle' = { handle with position := handle.position + bytes.length } := by
  unfold read at h
  unfold dataAt
  split at h
  · simp at h
  · split at h
    · next data hdata =>
        obtain ⟨rfl, rfl⟩ := Prod.mk.inj (Except.ok.inj h)
        rw [hdata]
        exact ⟨rfl, rfl⟩
    · simp at h
    · simp at h

end FileTree

namespace ServedDirectory

open FileTree

variable {d : ServedDirectory} {t u : FileTree} {home place : Location} {path : String}

theorem still_storage (d : ServedDirectory) : d.storage.Still where
  read handle most t := by
    simp only [storage]
    split <;> rfl
  release _ _ := rfl

/-- A handle at a position of the file at a place, in a tree that stays. -/
theorem shows_dataAt (d : ServedDirectory) (t : FileTree) (place : Location) :
    d.storage.Shows (t.dataAt place)
      fun p handle s => s = t ∧ handle.place = place ∧ handle.position = p where
  read := by
    rintro p handle s most bytes handle' s' ⟨rfl, rfl, rfl⟩ hread
    simp only [storage] at hread
    split at hread
    · next bytes' after hok =>
        obtain ⟨hbytes, hafter⟩ := Prod.mk.inj hread
        obtain rfl := Except.ok.inj hbytes
        obtain ⟨rfl, rfl⟩ := Prod.mk.inj hafter
        obtain ⟨rfl, rfl⟩ := read_spec hok
        exact ⟨List.take_prefix .., List.length_take_le .., rfl, rfl, rfl⟩
    · simp at hread
  seek := by
    rintro p handle s offset handle' s' ⟨rfl, rfl, rfl⟩ hseek
    simp only [storage] at hseek
    split at hseek
    · next after hok =>
        obtain ⟨-, hafter⟩ := Prod.mk.inj hseek
        obtain ⟨rfl, rfl⟩ := Prod.mk.inj hafter
        unfold FileTree.seek at hok
        split at hok
        · obtain rfl := Except.ok.inj hok
          exact ⟨rfl, rfl, rfl⟩
        · simp at hok
    · simp at hseek

theorem openRange_of_openAt {start : Nat} {opened : Except Failure FileHandle}
    (hopen : d.openAt path .readOnly start t = (opened, u)) :
    Checksum.openRange d.storage path start { store := t } =
      (opened, { store := u, journal := #[.asked (.openAt path .readOnly start)] }) := by
  show Ledger.ask _ _ (d.openAt path .readOnly start) = _
  rw [Ledger.ask, hopen]
  rfl

section

variable (hhome : t.canonical d.root = .ok home)
include hhome

theorem holds_dataAt (hinside : d.Inside home t path place) :
    d.storage.Holds path (t.dataAt place) t := by
  have hsame : ∀ {place'}, d.Inside home t path place' → place' = place := fun hinside' =>
    Except.ok.inj (hinside'.canonical.symm.trans hinside.canonical)
  refine ⟨_, shows_dataAt d t place, ?_, ?_⟩
  · intro handle u hopen
    obtain ⟨-, hstays, hplace⟩ := openFile_inside hhome rfl hopen
    obtain ⟨place', hinside', rfl⟩ := hplace handle rfl
    exact ⟨hstays rfl, hsame hinside', rfl⟩
  · intro opener offset handle u hoffset hopen
    obtain rfl := Option.some.inj hoffset
    obtain ⟨-, hstays, hplace⟩ := openAt_inside hhome rfl hopen
    obtain ⟨place', hinside', rfl⟩ := hplace handle rfl
    exact ⟨hstays rfl, hsame hinside', rfl⟩

/-- A digest is that of bytes in a file in the directory, and the tree stays. -/
theorem digest_inside {a : HashAlgorithm} {range : ByteRange} {answer : Except Failure String}
    {m : Ledger FileTree}
    (h : Checksum.ofRange d.storage path a range { store := t } = (answer, m)) :
    m.store = t ∧ ∀ hex, answer = .ok hex → ∃ place, d.Inside home t path place ∧
      hex = a.hashBytes ((t.dataAt place).extract range.start range.stop) ∧
      (range.start < range.stop → range.stop ≤ (t.dataAt place).length) := by
  rcases hopen : d.openAt path .readOnly range.start t with ⟨opened, u⟩
  obtain ⟨-, hstays, hplace⟩ := openAt_inside hhome rfl hopen
  have hopened := openRange_of_openAt hopen
  constructor
  · have hstore := Checksum.store_ofRange (l := { store := t }) d.still_storage path a range
    rw [hopened, h] at hstore
    exact hstore (hstays rfl)
  · rintro hex rfl
    have hle : range.start ≤ range.stop := by
      apply Nat.le_of_not_lt
      intro hlt
      rw [Checksum.ofRange, if_pos hlt] at h
      simp at h
    cases opened with
    | error f =>
        rw [Checksum.ofRange, if_neg (Nat.not_lt.mpr hle), hopened] at h
        simp at h
    | ok handle =>
        obtain ⟨place, hinside, -⟩ := hplace handle rfl
        exact ⟨place, hinside, Checksum.digest_of_ofRange (holds_dataAt hhome hinside) hle h⟩

end

/-! ## One request after the other -/

/-- A request to a served directory. -/
inductive Request where
  | stat (path : String)
  | readDir (path : String)
  | chmod (path : String) (permissions : Nat)
  | chown (path : String) (user : Nat) (group : Option Nat)
  | symlink (target link : String)
  | openFile (path : String) (mode : OpenMode) (permissions : Nat)
  | openAt (path : String) (mode : OpenMode) (offset : Nat)
  | digest (path : String) (a : HashAlgorithm) (range : ByteRange)

/-- Whether a request may make a file. -/
def Request.creates : Request → Bool
  | openFile _ mode _ => mode.create
  | openAt _ mode _ => mode.create
  | _ => false

/-- What a request that succeeds is answered with. -/
inductive Response where
  | described (info : FileInfo)
  | listed (entries : List FileInfo)
  | changed
  | opened (handle : FileHandle)
  | digested (hex : String)

/-- The answer to a request, and the tree after it. -/
def respond (d : ServedDirectory) (t : FileTree) : Request → Except Failure Response × FileTree
  | .stat path => ((d.stat path t).map .described, t)
  | .readDir path => ((d.readDir path t).map .listed, t)
  | .chmod path permissions =>
      let (answer, t) := d.storage.chmod path permissions t
      (answer.map fun _ => .changed, t)
  | .chown path user group =>
      let (answer, t) := d.storage.chown path user group t
      (answer.map fun _ => .changed, t)
  | .symlink target link =>
      let (answer, t) := d.storage.symlink target link t
      (answer.map fun _ => .changed, t)
  | .openFile path mode permissions =>
      let (answer, t) := d.openFile path mode permissions t
      (answer.map .opened, t)
  | .openAt path mode offset =>
      let (answer, t) := d.openAt path mode offset t
      (answer.map .opened, t)
  | .digest path a range =>
      let (answer, l) := Checksum.ofRange d.storage path a range { store := t }
      (answer.map .digested, l.store)

/-- What a response is about: always something in the directory, or below. -/
inductive Concerns (d : ServedDirectory) (home : Location) (t : FileTree) :
    Request → Response → Prop where
  | described {path node} {place : Location} (hinside : d.Inside home t path place)
      (hnode : t.node? place = some node) :
      Concerns d home t (.stat path)
        (.described (node.info ((lastName? (d.resolve path)).getD "/")))
  /-- The entries of a directory as they are, links among them not followed. -/
  | listed {path entries} {place : Location} (hinside : d.Inside home t path place)
      (hdir : t.isDirectory place = true)
      (hentries : entries.Perm ((t.children place).map fun (name, node) => node.info name)) :
      Concerns d home t (.readDir path) (.listed entries)
  | chmod {path permissions} {place : Location} (hinside : d.Inside home t path place) :
      Concerns d home t (.chmod path permissions) .changed
  | chown {path user group} {place : Location} (hinside : d.Inside home t path place) :
      Concerns d home t (.chown path user group) .changed
  /-- The link is put where its path leads to nothing. -/
  | symlink {target link directory name} (hbelow : home <+: directory)
      (hleads : t.Leads .keep (d.resolve link) (.free directory name))
      (hfree : t.node? (directory ++ [name]) = none) :
      Concerns d home t (.symlink target link) .changed
  | opened {path mode permissions handle} {place : Location} (hinside : d.Inside home t path place)
      (hhandle : handle = ⟨place, 0, mode.read⟩) :
      Concerns d home t (.openFile path mode permissions) (.opened handle)
  | openedAt {path mode offset handle} {place : Location} (hinside : d.Inside home t path place)
      (hhandle : handle = ⟨place, offset, mode.read⟩) :
      Concerns d home t (.openAt path mode offset) (.opened handle)
  | digested {path a range} {place : Location} (hinside : d.Inside home t path place)
      (hthere : range.start < range.stop → range.stop ≤ (t.dataAt place).length) :
      Concerns d home t (.digest path a range)
        (.digested (a.hashBytes ((t.dataAt place).extract range.start range.stop)))

/-- A change that fails leaves the tree as it was, so that only one that succeeds counts. -/
theorem change_inside {r : Request} {changing : Except Failure FileTree}
    (h : ∀ u, changing = .ok u → Changes home t u ∧ Concerns d home t r .changed) :
    Changes home t (change t changing).2 ∧
      ∀ response, (change t changing).1.map (fun _ => Response.changed) = .ok response →
        Concerns d home t r response := by
  cases changing with
  | error f => exact ⟨.none, by simp [change, Except.map]⟩
  | ok u =>
      obtain ⟨hchanges, hconcerns⟩ := h u rfl
      refine ⟨hchanges, ?_⟩
      intro response hok
      obtain ⟨_, -, rfl⟩ := map_eq_ok_iff.mp hok
      exact hconcerns

/-- A request that makes no file changes the directory at most, and is answered about it. -/
theorem respond_inside (hhome : t.canonical d.root = .ok home) {r : Request}
    (hr : r.creates = false) :
    Changes home t (d.respond t r).2 ∧
      ∀ response, (d.respond t r).1 = .ok response → Concerns d home t r response := by
  cases r with
  | stat path =>
      refine ⟨.none, ?_⟩
      intro response hok
      obtain ⟨info, hstat, rfl⟩ := map_eq_ok_iff.mp hok
      obtain ⟨place, node, hinside, hnode, rfl⟩ := stat_inside hhome hstat
      exact .described hinside hnode
  | readDir path =>
      refine ⟨.none, ?_⟩
      intro response hok
      obtain ⟨entries, hlist, rfl⟩ := map_eq_ok_iff.mp hok
      obtain ⟨place, hinside, hdir, hentries⟩ := readDir_inside hhome hlist
      exact .listed hinside hdir hentries
  | chmod path permissions =>
      apply change_inside
      intro u hu
      obtain ⟨place, hinside, hchanges⟩ := chmod_inside hhome hu
      exact ⟨hchanges, .chmod hinside⟩
  | chown path user group =>
      apply change_inside
      intro u hu
      obtain ⟨place, hinside, hchanges⟩ := chown_inside hhome hu
      exact ⟨hchanges, .chown hinside⟩
  | symlink target link =>
      apply change_inside
      intro u hu
      obtain ⟨directory, name, node, hbelow, hleads, hfree, -, rfl⟩ := symlink_inside hhome hu
      have hadded : home <+: directory ++ [name] := hbelow.trans (List.prefix_append ..)
      exact ⟨.insert hadded node, .symlink hbelow hleads hfree⟩
  | openFile path mode permissions =>
      rcases hopen : d.openFile path mode permissions t with ⟨answer, u⟩
      obtain ⟨hchanges, -, hplace⟩ := openFile_inside hhome hr hopen
      simp only [respond, hopen]
      refine ⟨hchanges, ?_⟩
      intro response hok
      obtain ⟨handle, rfl, rfl⟩ := map_eq_ok_iff.mp hok
      obtain ⟨place, hinside, hhandle⟩ := hplace handle rfl
      exact .opened hinside hhandle
  | openAt path mode offset =>
      rcases hopen : d.openAt path mode offset t with ⟨answer, u⟩
      obtain ⟨hchanges, -, hplace⟩ := openAt_inside hhome hr hopen
      simp only [respond, hopen]
      refine ⟨hchanges, ?_⟩
      intro response hok
      obtain ⟨handle, rfl, rfl⟩ := map_eq_ok_iff.mp hok
      obtain ⟨place, hinside, hhandle⟩ := hplace handle rfl
      exact .openedAt hinside hhandle
  | digest path a range =>
      rcases hdigest : Checksum.ofRange d.storage path a range { store := t } with ⟨answer, m⟩
      obtain ⟨hstays, hplace⟩ := digest_inside hhome hdigest
      simp only [respond, hdigest, hstays]
      refine ⟨.none, ?_⟩
      intro response hok
      obtain ⟨hex, rfl, rfl⟩ := map_eq_ok_iff.mp hok
      obtain ⟨place, hinside, rfl, hthere⟩ := hplace hex rfl
      exact .digested hinside hthere

/-- Where the root leads nowhere, every request fails and changes nothing. -/
theorem respond_of_error {fault : IoFault} (hnowhere : t.canonical d.root = .error fault)
    (r : Request) : ∃ f, d.respond t r = (.error f, t) := by
  have hopen : ∀ path mode permissions,
      d.openFile path mode permissions t = (.error fault.toFailure, t) := by
    intro path mode permissions
    rw [openFile, query_of_error hnowhere]
  have hopenAt : ∀ path mode offset,
      d.openAt path mode offset t = (.error fault.toFailure, t) := by
    intro path mode offset
    rw [openAt, hopen]
  cases r with
  | stat path => exact ⟨_, by rw [respond, stat, query_of_error hnowhere]; rfl⟩
  | readDir path => exact ⟨_, by rw [respond, readDir, query_of_error hnowhere]; rfl⟩
  | chmod path permissions =>
      refine ⟨fault.toFailure, ?_⟩
      simp only [respond, storage, chmod, query_of_error hnowhere]
      rfl
  | chown path user group =>
      refine ⟨fault.toFailure, ?_⟩
      simp only [respond, storage, chown, query_of_error hnowhere]
      rfl
  | symlink target link =>
      refine ⟨fault.toFailure, ?_⟩
      simp only [respond, storage, symlink, confine_of_error hnowhere]
      rfl
  | openFile path mode permissions => exact ⟨_, by rw [respond, hopen]; rfl⟩
  | openAt path mode offset => exact ⟨_, by rw [respond, hopenAt]; rfl⟩
  | digest path a range =>
      have hrange : Checksum.openRange d.storage path range.start { store := t } =
          (.error fault.toFailure,
            { store := t, journal := #[.asked (.openAt path .readOnly range.start)] }) := by
        show Ledger.ask _ _ (d.openAt path .readOnly range.start) = _
        rw [Ledger.ask, hopenAt]
        rfl
      by_cases hlt : range.stop < range.start
      · exact ⟨_, by rw [respond, Checksum.ofRange, if_pos hlt]; rfl⟩
      · exact ⟨_, by rw [respond, Checksum.ofRange, if_neg hlt, hrange]; rfl⟩

/-- A request and its answer, with the trees before and after. -/
structure Step where
  before : FileTree
  request : Request
  answer : Except Failure Response
  after : FileTree

/-- The steps of a run: each request meets the tree that the one before it left. -/
def history (d : ServedDirectory) : List Request → FileTree → List Step
  | [], _ => []
  | r :: rs, t =>
      let (answer, after) := d.respond t r
      ⟨t, r, answer, after⟩ :: history d rs after

/-- Over any run, nothing outside the directory changes, every answer is about something in it or
below, and the root leads where it led. A root that leads nowhere gives away nothing at all. -/
theorem history_stays_inside (d : ServedDirectory) (t : FileTree) (requests : List Request)
    (hno : ∀ r ∈ requests, r.creates = false) :
    (∀ home, t.canonical d.root = .ok home → ∀ step ∈ d.history requests t,
      step.before.canonical d.root = .ok home ∧ step.after.outside home = t.outside home ∧
        ∀ response, step.answer = .ok response →
          Concerns d home step.before step.request response) ∧
    ∀ fault, t.canonical d.root = .error fault → ∀ step ∈ d.history requests t,
      step.after = t ∧ ∃ f, step.answer = .error f := by
  induction requests generalizing t with
  | nil => exact ⟨by simp [history], by simp [history]⟩
  | cons r requests ih =>
      rw [List.forall_mem_cons] at hno
      constructor
      · intro home hhome step hstep
        obtain ⟨hchanges, hanswer⟩ := respond_inside hhome hno.1
        rcases List.mem_cons.mp hstep with rfl | hstep
        · exact ⟨hhome, hchanges.outside, hanswer⟩
        · have hafter := hchanges.grows.canonical hhome
          obtain ⟨hroot, hsame, hconcerns⟩ := (ih _ hno.2).1 home hafter step hstep
          exact ⟨hroot, hsame.trans hchanges.outside, hconcerns⟩
      · intro fault hnowhere step hstep
        obtain ⟨f, hfails⟩ := respond_of_error hnowhere r
        simp only [history, hfails] at hstep
        rcases List.mem_cons.mp hstep with rfl | hstep
        · exact ⟨rfl, f, rfl⟩
        · exact (ih t hno.2).2 fault hnowhere step hstep

/-- A link that a request makes and the next one follows, and one that leads out. -/
theorem history_stays_inside_links :
    let directory : Node := { content := .directory, permissions := 0o755 }
    let secret : Node := { content := .file [1, 2], permissions := 0o600 }
    let nodes : List (Location × Node) :=
      [(["s"], directory), (["x"], secret),
        (["s", "a"], { content := .file [3], permissions := 0o644 }),
        (["s", "o"], { content := .link "../x", permissions := 0o777 })]
    let link : Node := { content := .link "/s/a", permissions := 0o777 }
    let requests : List Request := [.symlink "a" "l", .openAt "l" .readOnly 1, .chmod "o" 0o777]
    let after : FileTree := { nodes := nodes ++ [(["s", "l"], link)] }
    let steps : List Step :=
      [⟨{ nodes }, .symlink "a" "l", .ok .changed, after⟩,
        ⟨after, .openAt "l" .readOnly 1, .ok (.opened ⟨["s", "a"], 1, true⟩), after⟩,
        ⟨after, .chmod "o" 0o777, .error (.outsideRoot "o"), after⟩]
    history ⟨"/s"⟩ requests { nodes } = steps ∧
      ∀ step ∈ steps, step.after.node? ["x"] = some secret := by
  intro directory secret nodes link requests after steps
  have hhome : FileTree.canonical { nodes } (ServedDirectory.mk "/s").root = .ok ["s"] := by cbv
  have hmade : respond ⟨"/s"⟩ { nodes } (.symlink "a" "l") = (.ok .changed, after) := by cbv
  have hopened : respond ⟨"/s"⟩ after (.openAt "l" .readOnly 1) =
      (.ok (.opened ⟨["s", "a"], 1, true⟩), after) := by cbv
  have hrefused : respond ⟨"/s"⟩ after (.chmod "o" 0o777) = (.error (.outsideRoot "o"), after) := by
    cbv
  have hsteps : history ⟨"/s"⟩ requests { nodes } = steps := by
    simp only [requests, history, hmade, hopened, hrefused]
    rfl
  refine ⟨hsteps, ?_⟩
  intro step hstep
  rw [← hsteps] at hstep
  obtain ⟨hinside, -⟩ := history_stays_inside ⟨"/s"⟩ { nodes } requests (by decide)
  obtain ⟨-, hsame, -⟩ := hinside ["s"] hhome step hstep
  rw [node?_of_outside hsame (by decide)]
  rfl

end ServedDirectory

end FtpControl

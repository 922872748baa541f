import FtpControl.Proofs.Session.Restraint
import FtpControl.Proofs.Storage.Listings

/-!
# Reports on a directory

The report on a directory tells of each entry in a line of its own, by name. It is the same in
whatever order the entries are stored.
-/

namespace FtpControl

namespace Session

variable {σ κ : Type}

theorem answerTo_stat (host : Host σ κ) {command : Command}
    (hverb : Text.upper command.verb = "STAT") (hparam : command.param ≠ "") (s : Session σ) :
    s.answerTo host command =
      Answer.ofReply s.profile (Report.onPath host.storage command.param s.ledger) := by
  have hstat := (Verb.ofText_eq_stat_iff host.settings.enableHash command.verb).mpr hverb
  simp only [answerTo, Answer.toCommand, hstat, Answer.toStat, hparam, if_false]
  rfl

/-- A directory that can be listed is reported by its entries. -/
theorem reply_directory {host : Host σ κ} {command : Command}
    (hverb : Text.upper command.verb = "STAT") (hparam : command.param ≠ "") {s : Session σ}
    {info : FileInfo} {entries : List FileInfo} {next : σ}
    (hstat : host.storage.stat command.param s.ledger.store = (.ok info, next))
    (hkind : info.isDirectory = true)
    (hentries : (host.storage.readDir command.param next).1 = .ok entries) :
    (s.answerTo host command).reply = Report.listing command.param entries := by
  rw [answerTo_stat host hverb hparam]
  simp only [Answer.ofReply, Report.onPath, Ledger.stat, Ledger.readDir, Ledger.ask, hstat, hkind,
    if_true, hentries]

end Session

namespace ServedDirectory

open FileTree Session

/-- A directory is listed completely, each entry once and as it is itself, by the bytes of the
names; and the listing and the report on it are the same for every order in which the entries may
be stored. -/
theorem listing_by_name (d : ServedDirectory) {t : FileTree} (ht : t.Distinct) {path : String}
    {info : FileInfo} (hstat : d.stat path t = .ok info) (hkind : info.isDirectory = true) :
    ∃ place entries, t.canonical (d.resolve path) = .ok place ∧ t.isDirectory place = true ∧
      entries.Pairwise (fun a b => Text.bytes a.name < Text.bytes b.name) ∧
      (∀ entry, entry ∈ entries ↔
        ∃ name node, t.node? (place ++ [name]) = some node ∧ entry = node.info name) ∧
      (∀ order, order.Perm (t.children place) →
        ∃ u, t.Rearranged u ∧ u.list (d.resolve path) = .ok order) ∧
      ∀ u, t.Rearranged u → d.readDir path u = .ok entries ∧
        ∀ {host : Host FileTree FileHandle} {command : Command} {s : Session FileTree},
          host.storage = d.storage → Text.upper command.verb = "STAT" → command.param = path →
          path ≠ "" → s.ledger.store = u →
            (s.answerTo host command).reply =
              .block 213 ("Status of " ++ path) (entries.map FileInfo.factLine) "End of status" ∧
            ∀ {via}, s.channel.state = .live via →
              (s.dispatch host command).2.ledger.written = s.ledger.written ++
                [(via, (s.channel.outlet.send via (s.replyBytes host command)).1)] := by
  obtain ⟨place, hcanonical, hplace, hdir, hlisted⟩ := readDir_of_stat hstat hkind
  refine ⟨place, FileInfo.byName (t.children place), hcanonical, hdir, ?_,
    fun entry => ?_, fun order horder => ?_, fun u hu => ⟨?_, ?_⟩⟩
  · exact (FileInfo.pairwise_byName (ht.nodup_names place)).imp Text.bytes_lt
  · simp only [FileInfo.mem_byName_iff, ht.mem_children_iff]
  · obtain ⟨u, hu, hchildren⟩ := exists_rearranged horder
    have hdir' : u.isDirectory place = true := by
      rw [isDirectory, hu.node?_eq ht]
      exact hdir
    refine ⟨u, hu, ?_⟩
    rw [list, locate_rearranged hu ht, hplace, ← hchildren]
    exact if_pos hdir'
  · rw [readDir_rearranged hu ht, hlisted]
  · rintro host command s hstorage hverb rfl hparam rfl
    have hstat' : host.storage.stat command.param s.ledger.store =
        (.ok info, s.ledger.store) := by
      rw [hstorage]
      exact congrArg (·, s.ledger.store) ((stat_rearranged hu ht _).trans hstat)
    have hlisted' : (host.storage.readDir command.param s.ledger.store).1 =
        .ok (FileInfo.byName (t.children place)) := by
      rw [hstorage]
      exact (readDir_rearranged hu ht _).trans hlisted
    exact ⟨reply_directory hverb hparam hstat' hkind hlisted', dispatch_writes host command⟩

/-- A directory with a link in it, whose entries are stored one way and the other. -/
theorem listing_by_name_reversed :
    let d : ServedDirectory := ⟨"/r"⟩
    let nodes : List (Location × Node) :=
      [(["r"], { content := .directory, permissions := 0o755 }),
        (["r", "b"], { content := .file [1, 2], permissions := 0o644 }),
        (["r", "a"], { content := .link "b", permissions := 0o777 }),
        (["r", "B"], { content := .directory, permissions := 0o700 })]
    let host : Host FileTree FileHandle :=
      { settings := {}, storage := d.storage, tls := .ok (), id := "1" }
    let s (nodes) : Session FileTree := { channel := {}, ledger := { store := { nodes } } }
    let reply : Reply := .block 213 "Status of /"
      ["type=dir;size=4096;modify=19700101000000;UNIX.mode=0700; B",
        "type=OS.unix=symlink;size=1;modify=19700101000000;UNIX.mode=0777; a",
        "type=file;size=2;modify=19700101000000;UNIX.mode=0644; b"] "End of status"
    ((s nodes).answerTo host ⟨"STAT", "/"⟩).reply = reply ∧
      ((s nodes.reverse).answerTo host ⟨"stat", "/"⟩).reply = reply := by
  intro d nodes host s reply
  have ht : Distinct { nodes } := by
    simp [Distinct, entries, nodes]
  have hstat : d.stat "/" { nodes } = .ok ((⟨.directory, 0o755, ⟨0, 0⟩⟩ : Node).info "r") := by cbv
  obtain ⟨place, entries, -, -, -, -, -, hlisted⟩ := listing_by_name d ht hstat rfl
  obtain ⟨hhere, htold⟩ := hlisted _ (.intro (List.Perm.refl _))
  obtain ⟨-, htold'⟩ := hlisted _ (.intro nodes.reverse_perm)
  have hentries : d.readDir "/" { nodes } = .ok
      [(⟨.directory, 0o700, ⟨0, 0⟩⟩ : Node).info "B", (⟨.link "b", 0o777, ⟨0, 0⟩⟩ : Node).info "a",
        (⟨.file [1, 2], 0o644, ⟨0, 0⟩⟩ : Node).info "b"] := by
    cbv
  obtain rfl := Except.ok.inj (hhere.symm.trans hentries)
  refine ⟨(htold (s := s nodes) rfl (by decide) rfl (by decide) rfl).1.trans ?_,
    (htold' (s := s nodes.reverse) rfl (by decide) rfl (by decide) rfl).1.trans ?_⟩
  · cbv
  · cbv

end ServedDirectory

end FtpControl

import FtpControl.Proofs.Storage.Reading
import FtpControl.Storage.Memory

/-!
# Sources

A storage serves a source when opening succeeds, and every read gives something until the source
ends or breaks. How much a read gives is up to the storage.
-/

namespace FtpControl

/-- What stands behind a path: a content, and perhaps a position from which on reads fail. -/
structure Source where
  content : List UInt8
  breaks : Option (Nat × IoFault) := none

namespace Source

/-- How far reads get. -/
def reach (f : Source) : Nat :=
  match f.breaks with
  | some (position, _) => min position f.content.length
  | none => f.content.length

/-- The fault of a read at a position. -/
def faultAt? (f : Source) (p : Nat) : Option IoFault :=
  match f.breaks with
  | some (position, fault) => if position ≤ p then some fault else none
  | none => none

theorem reach_le (f : Source) : f.reach ≤ f.content.length := by
  unfold reach
  split
  · exact Nat.min_le_right ..
  · exact Nat.le_refl _

/-- Once reads fail, they fail from there on. -/
theorem faultAt?_mono {f : Source} {p q : Nat} {fault : IoFault} (h : f.faultAt? p = some fault)
    (hle : p ≤ q) : f.faultAt? q = some fault := by
  unfold faultAt? at h ⊢
  split at h
  · next position fault' hbreaks =>
      have hposition : position ≤ p := by
        by_cases hp : position ≤ p
        · exact hp
        · simp [hp] at h
      simp only [hposition, if_true] at h
      simp only [Nat.le_trans hposition hle, if_true, h]
  · simp at h

/-- Reads do not fail before the reach. -/
theorem faultAt?_of_lt {f : Source} {p : Nat} (h : p < f.reach) : f.faultAt? p = none := by
  unfold reach at h
  unfold faultAt?
  split
  · next position fault hbreaks =>
      simp only [hbreaks] at h
      have : ¬ position ≤ p := by omega
      simp [this]
  · rfl

/-- Why bytes from a position on cannot be read: reads fail there, or nothing is left. -/
def failure (f : Source) (start total : Nat) : Failure :=
  match f.faultAt? (max start f.reach) with
  | some fault => fault.toFailure
  | none => .unexpectedEof total (f.reach - start)

/-- The digest of a range, or why it cannot be had. -/
def digest (f : Source) (a : HashAlgorithm) (range : ByteRange) : Except Failure String :=
  if range.stop ≤ max range.start f.reach then
    .ok (a.hashBytes (f.content.extract range.start range.stop))
  else .error (f.failure range.start (range.stop - range.start))

end Source

variable {σ κ : Type}

namespace Storage

/-- Handles show the content, and before the limit every read gives some of it. -/
structure Delivers (st : Storage σ κ) (content : List UInt8) (limit : Nat)
    (At : Nat → κ → σ → Prop) : Prop extends st.Shows content At where
  gives : ∀ {p h s most}, At p h s → 0 < most → p < limit →
    ∃ bytes, (st.read h most s).1 = .ok bytes ∧ bytes ≠ []

/-- Handles deliver the content up to where it ends or breaks, and no more. -/
structure Yields (st : Storage σ κ) (f : Source) (At : Nat → κ → σ → Prop) : Prop
    extends st.Delivers f.content f.reach At where
  stops : ∀ {p h s most bytes h' s'}, At p h s → st.read h most s = (.ok bytes, h', s') →
    f.faultAt? p = none ∧ bytes.length ≤ f.reach - p
  fails : ∀ {p h s most fault h' s'}, At p h s → st.read h most s = (.error fault, h', s') →
    f.faultAt? p = some fault

/-- Opening a path for reading from a start on succeeds, by whichever way the storage offers. -/
structure Admits (st : Storage σ κ) (path : String) (start : Nat) (s : σ) : Prop where
  direct : ∀ {openAt}, st.openAt? = some openAt →
    ∃ h s', openAt path .readOnly start s = (.ok h, s')
  generic : st.openAt? = none → ∃ h s', st.openFile path .readOnly 0o777 s = (.ok h, s') ∧
    (0 < start → ∃ h' s'', st.seek h start s' = (.ok (), h', s''))

/-- A path that can be opened and read up to a limit. -/
structure Offers (st : Storage σ κ) (path : String) (content : List UInt8) (limit start : Nat)
    (s : σ) : Prop extends st.Admits path start s where
  delivers : ∃ At, st.Delivers content limit At ∧ st.Opens path At s

/-- A path that can be opened, with a source behind it. -/
structure Serves (st : Storage σ κ) (path : String) (f : Source) (start : Nat) (s : σ) : Prop
    extends st.Admits path start s where
  yields : ∃ At, st.Yields f At ∧ st.Opens path At s

end Storage

/-! ## Storages in memory -/

namespace MemoryStore

/-- What stands behind an entry. -/
def source (e : MemoryEntry) : Source := ⟨e.data, e.failAt.map fun p => (p, e.fault)⟩

/-- The handle on an entry at a position. -/
def handleAt (e : MemoryEntry) (p : Nat) : MemoryHandle := ⟨e, p, e.data.drop p⟩

theorem faultAt?_source (e : MemoryEntry) (p : Nat) :
    (source e).faultAt? p = if fails (handleAt e p) then some e.fault else none := by
  unfold source Source.faultAt? fails handleAt
  cases e.failAt <;> simp

theorem allowance_le (h : MemoryHandle) (most : Nat) : allowance h most ≤ most := by
  unfold allowance
  split <;> split <;> simp only <;> omega

theorem allowance_le_reach (e : MemoryEntry) (p most : Nat) :
    min (allowance (handleAt e p) most) (e.data.length - p) ≤ (source e).reach - p := by
  unfold allowance handleAt source Source.reach
  cases e.failAt with
  | none => exact Nat.min_le_right ..
  | some position =>
      simp only [Option.map_some]
      split <;> omega

theorem allowance_pos {e : MemoryEntry} {p most : Nat} (hgrain : e.grain ≠ some 0)
    (hmost : 0 < most) (hp : p < (source e).reach) : 0 < allowance (handleAt e p) most := by
  have hgives : ∀ {g}, e.grain = some g → 0 < g := by
    intro g hg
    apply Nat.pos_of_ne_zero
    rintro rfl
    exact hgrain hg
  have hbefore : ∀ {position}, e.failAt = some position → p < position := by
    intro position hfail
    rw [source, hfail] at hp
    exact (Nat.lt_min.mp hp).1
  unfold allowance handleAt
  cases hg : e.grain with
  | none =>
      cases hf : e.failAt with
      | none => exact hmost
      | some position => exact Nat.lt_min.mpr ⟨hmost, Nat.sub_pos_of_lt (hbefore hf)⟩
  | some g =>
      have hpart : 0 < min most g := Nat.lt_min.mpr ⟨hmost, hgives hg⟩
      cases hf : e.failAt with
      | none => exact hpart
      | some position => exact Nat.lt_min.mpr ⟨hpart, Nat.sub_pos_of_lt (hbefore hf)⟩

theorem read_handleAt (e : MemoryEntry) (p most : Nat) (s : MemoryStore) :
    read (handleAt e p) most s =
      if fails (handleAt e p) then (.error e.fault, handleAt e p, s)
      else
        (.ok ((e.data.drop p).take (allowance (handleAt e p) most)),
          handleAt e (p + ((e.data.drop p).take (allowance (handleAt e p) most)).length), s) := by
  rw [read]
  split
  · rfl
  · simp only [handleAt, List.drop_drop]

theorem shows_data (offsets : Bool) (e : MemoryEntry) :
    (complete offsets).Shows e.data fun p h _ => h = handleAt e p where
  read := by
    rintro p _ s most bytes h' s' rfl hread
    change read (handleAt e p) most s = _ at hread
    rw [read_handleAt] at hread
    split at hread
    · simp at hread
    · simp only [Prod.mk.injEq, Except.ok.injEq] at hread
      obtain ⟨rfl, rfl, -⟩ := hread
      refine ⟨List.take_prefix .., ?_, rfl⟩
      exact Nat.le_trans (List.length_take_le ..) (allowance_le ..)
  seek := by
    rintro p _ s offset h' s' rfl hseek
    change seek (handleAt e p) offset s = _ at hseek
    unfold seek at hseek
    split at hseek
    · simp at hseek
    · simp only [Prod.mk.injEq] at hseek
      exact hseek.2.1.symm

theorem fails_of_lt {e : MemoryEntry} {p : Nat} (hp : p < (source e).reach) :
    fails (handleAt e p) = false := by
  have hnone := (source e).faultAt?_of_lt hp
  rw [faultAt?_source] at hnone
  cases hfails : fails (handleAt e p) with
  | false => rfl
  | true => simp [hfails] at hnone

/-- Entries whose reads give at least a byte yield their sources, whatever the grain. -/
theorem yields (offsets : Bool) {e : MemoryEntry} (hgrain : e.grain ≠ some 0) :
    (complete offsets).Yields (source e) fun p h _ => h = handleAt e p where
  toShows := shows_data offsets e
  gives := by
    rintro p _ s most rfl hmost hp
    change ∃ bytes, (read (handleAt e p) most s).1 = _ ∧ _
    rw [read_handleAt, fails_of_lt hp]
    refine ⟨_, rfl, ?_⟩
    intro hnil
    have hthere : p < e.data.length := Nat.lt_of_lt_of_le hp (source e).reach_le
    rcases List.take_eq_nil_iff.mp hnil with hzero | hdrop
    · exact absurd (allowance_pos hgrain hmost hp) (by omega)
    · exact absurd (List.drop_eq_nil_iff.mp hdrop) (by omega)
  stops := by
    rintro p _ s most bytes h' s' rfl hread
    change read (handleAt e p) most s = _ at hread
    rw [read_handleAt] at hread
    split at hread
    · simp at hread
    · next hgoes =>
        obtain ⟨hbytes, -⟩ := Prod.mk.injEq .. ▸ hread
        obtain rfl := Except.ok.inj hbytes
        rw [faultAt?_source, if_neg hgoes, List.length_take, List.length_drop]
        exact ⟨rfl, allowance_le_reach e p most⟩
  fails := by
    rintro p _ s most fault h' s' rfl hread
    change read (handleAt e p) most s = _ at hread
    rw [read_handleAt] at hread
    split at hread
    · next hfails =>
        obtain ⟨hfault, -⟩ := Prod.mk.injEq .. ▸ hread
        rw [faultAt?_source, if_pos hfails, Except.error.inj hfault]
    · simp at hread

theorem openAt?_eq_some {offsets : Bool}
    {opener : String → OpenMode → Nat → MemoryStore → Except Failure MemoryHandle × MemoryStore}
    (h : (complete offsets).openAt? = some opener) :
    opener = fun path _ offset => openAt path offset := by
  cases offsets with
  | false => simp [complete] at h
  | true => exact (Option.some.inj h).symm

section

variable {offsets : Bool} {path : String} {e : MemoryEntry} {start : Nat} {s : MemoryStore}

theorem openAt_eq (hentry : s.find? path = some e) (hopen : e.openFailure = none) (offset : Nat) :
    openAt path offset s = (.ok (handleAt e offset), s) := by
  simp [openAt, entry, hentry, hopen, handleAt, Except.map]

theorem opens (hentry : s.find? path = some e) (hopen : e.openFailure = none) :
    (complete offsets).Opens path (fun p h _ => h = handleAt e p) s where
  atStart := by
    intro h s' hfile
    have hsame := (openAt_eq hentry hopen 0).symm.trans hfile
    simp_all
  atOffset := by
    intro opener offset h s' hoffset hfile
    obtain rfl := openAt?_eq_some hoffset
    have hsame := (openAt_eq hentry hopen offset).symm.trans hfile
    simp_all

theorem holds (hentry : s.find? path = some e) (hopen : e.openFailure = none) :
    (complete offsets).Holds path e.data s :=
  ⟨_, shows_data offsets e, opens hentry hopen⟩

theorem admits (hentry : s.find? path = some e) (hopen : e.openFailure = none)
    (hseek : offsets = true ∨ start = 0 ∨ e.seekFault = none) :
    (complete offsets).Admits path start s where
  direct := by
    intro opener hoffset
    obtain rfl := openAt?_eq_some hoffset
    exact ⟨_, _, openAt_eq hentry hopen start⟩
  generic := by
    intro hnone
    refine ⟨_, _, openAt_eq hentry hopen 0, ?_⟩
    intro hstart
    have hfault : e.seekFault = none := by
      rcases hseek with rfl | hzero | hfault
      · simp [complete] at hnone
      · omega
      · exact hfault
    refine ⟨handleAt e start, s, ?_⟩
    show seek (handleAt e 0) start s = _
    simp [seek, handleAt, hfault]

/-- An entry that can be opened, and moved in unless the storage opens at offsets, is served. -/
theorem serves (hentry : s.find? path = some e) (hopen : e.openFailure = none)
    (hgrain : e.grain ≠ some 0) (hseek : offsets = true ∨ start = 0 ∨ e.seekFault = none) :
    (complete offsets).Serves path (source e) start s :=
  ⟨admits hentry hopen hseek, _, yields offsets hgrain, opens hentry hopen⟩

end

end MemoryStore

end FtpControl

import FtpControl.Proofs.Storage.Serving

/-!
# The digest of a range

What is read of a source is fixed by the source alone, and so is the digest of a range of it: it
does not matter how the reads cut it, nor whether the storage opens at offsets or has to be moved
there.
-/

namespace FtpControl

variable {σ κ : Type}

namespace Checksum

variable {st : Storage σ κ} {f : Source} {At : Nat → κ → σ → Prop} {l m : Ledger σ}
  {content : List UInt8}

theorem openRange_of_admits {path : String} {start : Nat} (h : st.Admits path start l.store) :
    ∃ handle m, openRange st path start l = (.ok handle, m) := by
  rw [openRange]
  cases hoffset : st.openAt? with
  | some openAt =>
      obtain ⟨handle, s', hopen⟩ := h.direct hoffset
      exact ⟨handle, _, by simp only [Ledger.ask, hopen]; rfl⟩
  | none =>
      obtain ⟨handle, s', hopen, hseek⟩ := h.generic hoffset
      simp only [Ledger.openFile, Ledger.ask, hopen]
      by_cases hstart : start = 0
      · exact ⟨handle, _, by rw [if_pos hstart]⟩
      · obtain ⟨handle', s'', hmoved⟩ := hseek (Nat.pos_of_ne_zero hstart)
        exact ⟨handle', _, by simp only [hstart, if_false, Ledger.seek, Ledger.ask, hmoved]; rfl⟩

theorem want_pos {remaining : Nat} (h : ¬ remaining = 0) : 0 < min remaining portion :=
  Nat.lt_min.mpr ⟨Nat.pos_of_ne_zero h, by decide⟩

/-- Reading gets as far as the handle delivers. -/
theorem stream_of_le {limit : Nat} (hdelivers : st.Delivers content limit At)
    {total remaining : Nat} {h : κ} {engine : DigestEngine} (p : Nat) (hat : At p h l.store)
    (hle : p + remaining ≤ max p limit) :
    ∃ final, (stream st total remaining h engine l).1 = .ok final := by
  fun_induction stream generalizing p with
  | case1 => exact ⟨_, rfl⟩
  | case2 remaining h engine l hne want fault h₁ l₁ hread =>
      obtain ⟨bytes, hok, -⟩ := hdelivers.gives hat (want_pos hne) (by omega)
      simp [Ledger.read_spec hread, want] at hok
  | case3 remaining h engine l hne want bytes h₁ l₁ hread htake =>
      obtain ⟨bytes', hok, hsome⟩ := hdelivers.gives hat (want_pos hne) (by omega)
      rw [Ledger.read_spec hread] at hok
      obtain rfl := Except.ok.inj hok
      rcases List.take_eq_nil_iff.mp htake with hwant | hnil
      · exact absurd (want_pos hne) (by omega)
      · exact absurd hnil hsome
  | case4 remaining h engine l hne want bytes h₁ l₁ hread b bs htake ih =>
      obtain ⟨-, hmost, hnext⟩ := hdelivers.read hat (Ledger.read_spec hread)
      obtain rfl : bytes = b :: bs := by rw [← htake, List.take_of_length_le hmost]
      have hle : (b :: bs).length ≤ remaining := Nat.le_trans hmost (Nat.min_le_left ..)
      apply ih _ hnext
      simp only [List.length_cons] at hle ⊢
      omega

/-- Where the source does not reach, reading fails. -/
theorem stream_of_lt (hyields : st.Yields f At) {start total remaining : Nat} {h : κ}
    {engine : DigestEngine} (p : Nat) (hat : At p h l.store) (hp : p + remaining = start + total)
    (hstart : start ≤ p) (hreach : p ≤ max start f.reach)
    (hlt : max start f.reach < start + total) :
    (stream st total remaining h engine l).1 = .error (f.failure start total) := by
  fun_induction stream generalizing p with
  | case1 => omega
  | case2 remaining h engine l hne want fault h₁ l₁ hread =>
      have hfault := hyields.fails hat (Ledger.read_spec hread)
      rw [Source.failure, f.faultAt?_mono hfault hreach]
  | case3 remaining h engine l hne want bytes h₁ l₁ hread htake =>
      have hanswer := Ledger.read_spec hread
      obtain ⟨hnone, -⟩ := hyields.stops hat hanswer
      have hend : f.reach ≤ p := by
        apply Nat.le_of_not_lt
        intro hbefore
        obtain ⟨bytes', hok, hsome⟩ := hyields.gives hat (want_pos hne) hbefore
        rw [hanswer] at hok
        obtain rfl := Except.ok.inj hok
        rcases List.take_eq_nil_iff.mp htake with hwant | hnil
        · exact absurd (want_pos hne) (by omega)
        · exact hsome hnil
      obtain rfl : p = max start f.reach := by omega
      have hgot : total - remaining = f.reach - start := by omega
      rw [Source.failure, hnone, hgot]
  | case4 remaining h engine l hne want bytes h₁ l₁ hread b bs htake ih =>
      have hanswer := Ledger.read_spec hread
      obtain ⟨-, hmost, hnext⟩ := hyields.read hat hanswer
      obtain ⟨-, hleft⟩ := hyields.stops hat hanswer
      obtain rfl : bytes = b :: bs := by rw [← htake, List.take_of_length_le hmost]
      have hle : (b :: bs).length ≤ remaining := Nat.le_trans hmost (Nat.min_le_left ..)
      simp only [List.length_cons] at hleft hle hnext
      apply ih _ hnext
      all_goals omega

theorem ofRange_eq_stream {path : String} {a : HashAlgorithm} {range : ByteRange} {h : κ}
    (hle : range.start ≤ range.stop) (hopen : openRange st path range.start l = (.ok h, m)) :
    (ofRange st path a range l).1 =
      (stream st (range.stop - range.start) (range.stop - range.start) h (.start a) m).1.map
        DigestEngine.hex := by
  rw [ofRange, if_neg (Nat.not_lt.mpr hle), hopen]

/-- What is delivered up to the end of a range has exactly the digest of the bytes there. -/
theorem ofRange_of_offers {path : String} {a : HashAlgorithm} {range : ByteRange} {limit : Nat}
    (hoffers : st.Offers path content limit range.start l.store)
    (hle : range.start ≤ range.stop) (hlimit : range.stop ≤ max range.start limit) :
    (ofRange st path a range l).1 =
      .ok (a.hashBytes (content.extract range.start range.stop)) := by
  obtain ⟨At, hdelivers, hopens⟩ := hoffers.delivers
  obtain ⟨h, l₁, hopen⟩ := openRange_of_admits hoffers.toAdmits
  have hat := at_of_openRange hdelivers.toShows hopens hopen
  have hlength : range.start + (range.stop - range.start) ≤ max range.start limit := by omega
  obtain ⟨final, hfinal⟩ := stream_of_le hdelivers _ hat hlength
  obtain ⟨hengine, -⟩ := engine_of_stream hdelivers.toShows _ hat (Prod.ext hfinal rfl)
  rw [ofRange_eq_stream hle hopen, hfinal, hengine]
  rfl

/-- A digest is fixed by the source alone. -/
theorem ofRange_of_serves {path : String} {a : HashAlgorithm} {range : ByteRange}
    (hserves : st.Serves path f range.start l.store) (hle : range.start ≤ range.stop) :
    (ofRange st path a range l).1 = f.digest a range := by
  obtain ⟨At, hyields, hopens⟩ := hserves.yields
  rw [Source.digest]
  by_cases hreach : range.stop ≤ max range.start f.reach
  · rw [if_pos hreach]
    exact ofRange_of_offers ⟨hserves.toAdmits, At, hyields.toDelivers, hopens⟩ hle hreach
  · obtain ⟨h, l₁, hopen⟩ := openRange_of_admits hserves.toAdmits
    have hat := at_of_openRange hyields.toShows hopens hopen
    rw [if_neg hreach, ofRange_eq_stream hle hopen,
      stream_of_lt hyields range.start hat rfl (Nat.le_refl _) (Nat.le_max_left ..) (by omega)]
    rfl

end Checksum

/-! ## Parts of a message -/

theorem DigestEngine.foldl_update (engine : DigestEngine) (parts : List (List UInt8)) :
    parts.foldl update engine = engine.update parts.flatten := by
  induction parts generalizing engine with
  | nil => rw [List.foldl_nil, List.flatten_nil, update_nil]
  | cons part parts ih => rw [List.foldl_cons, ih, List.flatten_cons, update_append]

theorem HashAlgorithm.hashParts_eq (a : HashAlgorithm) (parts : List (List UInt8)) :
    a.hashParts parts = a.hashBytes parts.flatten := by
  rw [hashParts, hashBytes, DigestEngine.foldl_update]

/-! ## Exactness -/

/-- The digest of a range that is delivered is the digest of the bytes there. Whatever source is
served, the answer does not depend on the storage that serves it. A message in parts has the digest
of the whole. -/
theorem Checksum.range_digest_exact (a : HashAlgorithm) {range : ByteRange}
    (hle : range.start ≤ range.stop) :
    (∀ {σ κ : Type} (st : Storage σ κ) (path : String) (content : List UInt8) (l : Ledger σ),
      st.Offers path content range.stop range.start l.store →
        (ofRange st path a range l).1 =
          .ok (a.hashBytes (content.extract range.start range.stop))) ∧
      (∀ {σ κ τ η : Type} (st : Storage σ κ) (other : Storage τ η) (path path' : String)
        (f : Source) (l : Ledger σ) (m : Ledger τ), st.Serves path f range.start l.store →
          other.Serves path' f range.start m.store →
            (ofRange st path a range l).1 = (ofRange other path' a range m).1) ∧
      ∀ parts, a.hashParts parts = a.hashBytes parts.flatten := by
  refine ⟨?_, ?_, a.hashParts_eq⟩
  · intro σ κ st path content l hoffers
    exact ofRange_of_offers hoffers hle (Nat.le_max_right ..)
  · intro σ κ τ η st other path path' f l m hserves hother
    rw [ofRange_of_serves hserves hle, ofRange_of_serves hother hle]

/-- The same content by twos and as a whole, and the same break met byte by byte and at once. -/
theorem Checksum.range_digest_exact_in_memory :
    let entry := fun grain failAt =>
      ({ path := "a", info := { name := "a", kind := .file, size := 5 }
         data := [104, 101, 108, 108, 111], grain, failAt } : MemoryEntry)
    let ask := fun offsets grain failAt =>
      (ofRange (MemoryStore.complete offsets) "a" .crc32 ⟨1, 5⟩
        { store := [entry grain failAt] }).1
    ask true (some 2) none = .ok (HashAlgorithm.hashBytes .crc32 [101, 108, 108, 111]) ∧
      ask true (some 1) (some 3) = ask false none (some 3) := by
  intro entry ask
  obtain ⟨hexact, hsame, -⟩ :=
    range_digest_exact .crc32 (show (ByteRange.mk 1 5).start ≤ (ByteRange.mk 1 5).stop by decide)
  have hserves : ∀ offsets grain failAt, grain ≠ some 0 →
      (MemoryStore.complete offsets).Serves "a" (MemoryStore.source (entry grain failAt)) 1
        [entry grain failAt] := fun offsets grain failAt hgrain =>
    MemoryStore.serves (by simp [MemoryStore.find?, entry]) rfl hgrain (.inr (.inr rfl))
  constructor
  · obtain ⟨hadmits, At, hyields, hopens⟩ := hserves true (some 2) none (by decide)
    have hello := hexact _ "a" [104, 101, 108, 108, 111] { store := [entry (some 2) none] }
      ⟨hadmits, At, hyields.toDelivers, hopens⟩
    exact hello
  · exact hsame _ _ _ _ _ _ _ (hserves true (some 1) (some 3) (by decide))
      (hserves false none (some 3) (by decide))

end FtpControl

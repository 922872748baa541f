/-! # Lists cut after every separator -/

namespace FtpControl.Text

variable {α : Type} [DecidableEq α]

/-- The pieces of a list, each with the separator at its end, and what follows the last one. -/
def cutAfter (sep : α) : List α → List (List α) × List α
  | [] => ([], [])
  | a :: as =>
      let (pieces, rest) := cutAfter sep as
      if a = sep then ([a] :: pieces, rest)
      else
        match pieces with
        | [] => ([], a :: rest)
        | piece :: pieces => ((a :: piece) :: pieces, rest)

@[simp] theorem cutAfter_nil (sep : α) : cutAfter sep [] = ([], []) := rfl

theorem cutAfter_of_notMem {sep : α} {as : List α} (h : sep ∉ as) :
    cutAfter sep as = ([], as) := by
  induction as with
  | nil => rfl
  | cons a as ih =>
      rw [List.mem_cons, not_or] at h
      rw [cutAfter, ih h.2]
      simp [Ne.symm h.1]

/-- The first piece goes up to the first separator. -/
theorem cutAfter_append_cons {sep : α} {front : List α} (h : sep ∉ front) (as : List α) :
    cutAfter sep (front ++ sep :: as) =
      ((front ++ [sep]) :: (cutAfter sep as).1, (cutAfter sep as).2) := by
  induction front with
  | nil => simp [cutAfter]
  | cons a front ih =>
      rw [List.mem_cons, not_or] at h
      rw [List.cons_append, cutAfter, ih h.2]
      simp [Ne.symm h.1]

theorem notMem_or_splits (sep : α) (as : List α) :
    sep ∉ as ∨ ∃ front back, as = front ++ sep :: back ∧ sep ∉ front := by
  by_cases h : sep ∈ as
  · exact .inr (List.eq_append_cons_of_mem h)
  · exact .inl h

/-- What has no separator goes to the first piece, or to the rest. -/
theorem cutAfter_append_of_notMem {sep : α} {front : List α} (h : sep ∉ front) (as : List α) :
    cutAfter sep (front ++ as) =
      match cutAfter sep as with
      | ([], rest) => ([], front ++ rest)
      | (piece :: pieces, rest) => ((front ++ piece) :: pieces, rest) := by
  induction front with
  | nil =>
      rw [List.nil_append]
      rcases cutAfter sep as with ⟨_ | _, rest⟩ <;> rfl
  | cons a front ih =>
      rw [List.mem_cons, not_or] at h
      rw [List.cons_append, cutAfter, ih h.2]
      rcases cutAfter sep as with ⟨_ | _, rest⟩ <;> simp [Ne.symm h.1]

theorem cutAfter_append_sep (sep : α) (as bs : List α) :
    cutAfter sep (as ++ sep :: bs) =
      ((cutAfter sep (as ++ [sep])).1 ++ (cutAfter sep bs).1, (cutAfter sep bs).2) := by
  induction h : as.length using Nat.strongRecOn generalizing as with
  | ind n ih =>
      rcases notMem_or_splits sep as with hno | ⟨front, back, rfl, hfront⟩
      · rw [cutAfter_append_cons hno, cutAfter_append_cons hno]
        rfl
      · have hback : back.length < n := by
          simp only [List.length_append, List.length_cons] at h
          omega
        rw [List.append_assoc, List.append_assoc, List.cons_append, List.cons_append,
          cutAfter_append_cons hfront, cutAfter_append_cons hfront, ih _ hback back rfl]
        rfl

/-! ## Pieces and what is left -/

/-- A list as pieces, each with its one separator at the end, and a rest without one. -/
structure Pieces (sep : α) (as : List α) (pieces : List (List α))
    (rest : List α) : Prop where
  joined : as = pieces.flatten ++ rest
  ends : ∀ piece ∈ pieces, ∃ front, piece = front ++ [sep] ∧ sep ∉ front
  unended : sep ∉ rest

theorem pieces_cutAfter (sep : α) (as : List α) :
    Pieces sep as (cutAfter sep as).1 (cutAfter sep as).2 := by
  induction h : as.length using Nat.strongRecOn generalizing as with
  | ind n ih =>
      rcases notMem_or_splits sep as with hno | ⟨front, back, rfl, hfront⟩
      · rw [cutAfter_of_notMem hno]
        exact ⟨rfl, by simp, hno⟩
      · have hback : back.length < n := by
          simp only [List.length_append, List.length_cons] at h
          omega
        obtain ⟨hjoined, hends, hunended⟩ := ih _ hback back rfl
        rw [cutAfter_append_cons hfront]
        refine ⟨?_, ?_, hunended⟩
        · rw [List.flatten_cons, List.append_assoc, ← hjoined]
          simp
        · intro piece hpiece
          rcases List.mem_cons.1 hpiece with rfl | hpiece
          · exact ⟨front, rfl, hfront⟩
          · exact hends piece hpiece

/-! ## How the pieces start -/

/-- Whether every separator is followed by a mark. -/
def followed (sep mark : α) : List α → Bool
  | [] => true
  | a :: as => (a ≠ sep || as.head? = some mark) && followed sep mark as

theorem followed_append_of_notMem {sep mark : α} {front : List α} (h : sep ∉ front)
    (as : List α) : followed sep mark (front ++ as) = followed sep mark as := by
  induction front with
  | nil => rfl
  | cons a front ih =>
      rw [List.mem_cons, not_or] at h
      rw [List.cons_append, followed, ih h.2]
      simp [Ne.symm h.1]

/-- What is neither separator nor mark makes no difference at the end. -/
theorem followed_append_singleton {sep mark b : α} (hsep : b ≠ sep) (hmark : b ≠ mark)
    (as : List α) : followed sep mark (as ++ [b]) = followed sep mark as := by
  induction as with
  | nil => simp [followed, hsep]
  | cons a as ih =>
      have hhead : (as ++ [b]).head? = some mark ↔ as.head? = some mark := by
        cases as <;> simp [hmark]
      simp only [List.cons_append, followed, ih, hhead]

theorem exists_cons_cutAfter (sep : α) (as : List α) :
    ∃ piece pieces, (cutAfter sep (as ++ [sep])).1 = piece :: pieces ∧
      piece.head? = (as ++ [sep]).head? := by
  induction as with
  | nil => exact ⟨[sep], [], by simp [cutAfter], rfl⟩
  | cons a as ih =>
      obtain ⟨piece, pieces, hcut, -⟩ := ih
      rw [List.cons_append, cutAfter]
      by_cases ha : a = sep
      · exact ⟨[a], piece :: pieces, by simp [ha, hcut], rfl⟩
      · exact ⟨a :: piece, pieces, by simp [ha, hcut], rfl⟩

/-- Every piece after the first starts with a mark exactly if every separator but the last is
followed by one. -/
theorem tail_cutAfter_iff {sep mark : α} (hne : mark ≠ sep) (as : List α) :
    (∀ piece ∈ (cutAfter sep (as ++ [sep])).1.tail, piece.head? = some mark) ↔
      followed sep mark as = true := by
  induction as with
  | nil => simp [cutAfter, followed]
  | cons a as ih =>
      obtain ⟨piece, pieces, hcut, hhead⟩ := exists_cons_cutAfter sep as
      rw [hcut] at ih
      rw [List.cons_append, cutAfter, followed]
      by_cases ha : a = sep
      · have hfirst : piece.head? = some mark ↔ as.head? = some mark := by
          rw [hhead]
          cases as with
          | nil => simp [Ne.symm hne]
          | cons b as => simp
        simp only [List.tail_cons] at ih
        simp [ha, hcut, hfirst, ih]
      · simpa [ha, hcut] using ih

/-- Every piece of a list that starts with a mark does so too exactly if every separator but the
last is followed by one. -/
theorem heads_cutAfter_iff {sep mark : α} (hne : mark ≠ sep) (as : List α) :
    (∀ piece ∈ (cutAfter sep (mark :: as ++ [sep])).1, piece.head? = some mark) ↔
      followed sep mark as = true := by
  obtain ⟨piece, pieces, hcut, hhead⟩ := exists_cons_cutAfter sep (mark :: as)
  have htail := tail_cutAfter_iff hne (mark :: as)
  rw [hcut] at htail ⊢
  simp only [List.tail_cons] at htail
  simp [hhead, htail, followed, hne]

end FtpControl.Text

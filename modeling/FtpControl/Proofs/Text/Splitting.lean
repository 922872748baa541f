import Mathlib.Data.List.Basic
import FtpControl.Text.Split

/-!
# Texts and their pieces

A text is its pieces with one separator between each two, and no piece has a separator in it. So
texts with a separator between them have the pieces of both.
-/

namespace FtpControl.Text

variable {sep : Char} {s piece : String}

theorem splitChars_eq_splitOn (sep : Char) (cs : List Char) :
    splitChars sep cs = cs.splitOn sep := by
  induction cs with
  | nil => rfl
  | cons c cs ih =>
      rw [splitChars, ih, List.splitOn_cons_eq_if_modifyHead]
      by_cases hc : c = sep
      · simp [hc]
      · cases hpieces : cs.splitOn sep with
        | nil => exact absurd hpieces (List.splitOn_ne_nil sep cs)
        | cons piece pieces => simp [hc]

theorem split_ne_nil (sep : Char) (s : String) : split sep s ≠ [] := by
  rw [split, splitChars_eq_splitOn, ne_eq, List.map_eq_nil_iff]
  exact List.splitOn_ne_nil sep s.toList

theorem split_of_notMem (h : sep ∉ s.toList) : split sep s = [s] := by
  rw [split, splitChars_eq_splitOn, List.splitOn_eq_singleton h]
  simp

theorem split_append (sep : Char) (front back : String) :
    split sep (front ++ .singleton sep ++ back) = split sep front ++ split sep back := by
  have htext : (front ++ .singleton sep ++ back).toList = front.toList ++ sep :: back.toList := by
    simp
  simp only [split, splitChars_eq_splitOn, htext, List.splitOn_append_cons_self, List.map_append]

theorem intercalate_split (sep : Char) (s : String) :
    (String.singleton sep).intercalate (split sep s) = s := by
  apply String.toList_injective
  have hback : String.toList ∘ String.ofList = id := funext fun _ => String.toList_ofList
  rw [String.toList_intercalate, split, splitChars_eq_splitOn, List.map_map, hback, List.map_id,
    String.toList_singleton]
  exact List.intercalate_splitOn sep

/-- Pieces without separators, put together, are cut into just these pieces. -/
theorem split_intercalate {pieces : List String} (hne : pieces ≠ [])
    (h : ∀ piece ∈ pieces, sep ∉ piece.toList) :
    split sep ((String.singleton sep).intercalate pieces) = pieces := by
  have hcut : ([sep].intercalate (pieces.map String.toList)).splitOn sep =
      pieces.map String.toList :=
    List.splitOn_intercalate sep (by simpa using h) (by simpa using hne)
  have hback : String.ofList ∘ String.toList = id := funext fun _ => String.ofList_toList
  rw [split, String.toList_intercalate, String.toList_singleton, splitChars_eq_splitOn, hcut,
    List.map_map, hback, List.map_id]

theorem notMem_of_mem_splitChars {cs piece : List Char} (h : piece ∈ splitChars sep cs) :
    sep ∉ piece := by
  induction cs generalizing piece with
  | nil => simp_all [splitChars]
  | cons c cs ih =>
      rw [splitChars] at h
      by_cases hc : c = sep
      · rw [if_pos hc, List.mem_cons] at h
        rcases h with rfl | h
        · exact List.not_mem_nil
        · exact ih h
      · rw [if_neg hc] at h
        cases hpieces : splitChars sep cs with
        | nil =>
            rw [splitChars_eq_splitOn] at hpieces
            exact absurd hpieces (List.splitOn_ne_nil sep cs)
        | cons first pieces =>
            rw [hpieces] at h ih
            rcases List.mem_cons.mp h with rfl | h
            · rw [List.mem_cons, not_or]
              exact ⟨Ne.symm hc, ih List.mem_cons_self⟩
            · exact ih (List.mem_cons_of_mem first h)

theorem notMem_of_mem_split (h : piece ∈ split sep s) : sep ∉ piece.toList := by
  obtain ⟨chars, hchars, rfl⟩ := List.mem_map.mp h
  rw [String.toList_ofList]
  exact notMem_of_mem_splitChars hchars

end FtpControl.Text

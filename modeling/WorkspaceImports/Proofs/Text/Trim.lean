import Mathlib.Data.List.DropRight
import WorkspaceImports.Text.Basic

namespace WorkspaceImports.Text

variable {α : Type} {isBlank : α → Bool} {items before after : List α}

theorem trimBy_eq_rdropWhile (isBlank : α → Bool) (items : List α) :
    trimBy isBlank items = (items.dropWhile isBlank).rdropWhile isBlank := rfl

-- What is left begins with no blank, as it is the beginning of what the first pass leaves.
theorem dropWhile_trimBy : (trimBy isBlank items).dropWhile isBlank = trimBy isBlank items := by
  obtain ⟨cut, hcut⟩ := List.rdropWhile_prefix isBlank (items.dropWhile isBlank)
  rw [← trimBy_eq_rdropWhile] at hcut
  cases htrimmed : trimBy isBlank items with
  | nil => rfl
  | cons first rest =>
      have hfirst : isBlank first = false := by
        rw [htrimmed, List.cons_append] at hcut
        have hnot := List.head?_dropWhile_not isBlank items
        rw [← hcut] at hnot
        simpa using hnot
      simp [hfirst]

theorem trimBy_trimBy : trimBy isBlank (trimBy isBlank items) = trimBy isBlank items := by
  rw [trimBy_eq_rdropWhile, dropWhile_trimBy, trimBy_eq_rdropWhile]
  exact List.rdropWhile_idempotent isBlank _

theorem trimBy_subset : trimBy isBlank items ⊆ items := by
  have hfront : items.dropWhile isBlank ⊆ items := (List.dropWhile_suffix isBlank).subset
  exact List.Subset.trans (List.rdropWhile_prefix isBlank _).subset hfront

-- A part of a list with blanks around it.
def Padded (isBlank : α → Bool) (part padded : List α) : Prop :=
  ∃ before after, (∀ c ∈ before, isBlank c) ∧ (∀ c ∈ after, isBlank c) ∧
    padded = before ++ part ++ after

theorem padded_self (isBlank : α → Bool) (part : List α) : Padded isBlank part part :=
  ⟨[], [], by simp, by simp, by simp⟩

theorem trimBy_append_blank (hafter : ∀ c ∈ after, isBlank c) :
    trimBy isBlank (items ++ after) = trimBy isBlank items := by
  have hreverse : ∀ c ∈ after.reverse, isBlank c := fun c hc => hafter c (List.mem_reverse.mp hc)
  have hdrop : (after.reverse ++ []).dropWhile isBlank = [] :=
    List.dropWhile_append_of_pos hreverse
  unfold trimBy
  rw [List.dropWhile_append]
  split
  · rename_i hempty
    have hfront : after.dropWhile isBlank = [] := List.dropWhile_eq_nil_iff.mpr hafter
    rw [hfront, List.isEmpty_iff.mp hempty]
  · rw [List.reverse_append, List.dropWhile_append_of_pos hreverse]

theorem Padded.trimBy_eq {part padded : List α} (h : Padded isBlank part padded) :
    trimBy isBlank padded = trimBy isBlank part := by
  obtain ⟨before, after, hbefore, hafter, rfl⟩ := h
  rw [trimBy_append_blank hafter]
  unfold trimBy
  rw [List.dropWhile_append_of_pos hbefore]

theorem Padded.notMem {c : α} {part padded : List α} (h : Padded isBlank part padded)
    (hblank : isBlank c = false) (hpart : c ∉ part) : c ∉ padded := by
  obtain ⟨before, after, hbefore, hafter, rfl⟩ := h
  have hnot : ∀ d, isBlank d = true → c ≠ d := by
    rintro d hd rfl
    simp [hblank] at hd
  simp only [List.mem_append, not_or]
  exact ⟨⟨fun hc => hnot c (hbefore c hc) rfl, hpart⟩, fun hc => hnot c (hafter c hc) rfl⟩

end WorkspaceImports.Text

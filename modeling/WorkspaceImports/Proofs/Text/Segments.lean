import WorkspaceImports.Text.Basic

namespace WorkspaceImports.Text

section Pieces

variable {α : Type} [BEq α] [LawfulBEq α] {separator : α}

theorem segments_append_cons (left right : List α) :
    segments separator (left ++ separator :: right) =
      segments separator left ++ segments separator right := by
  simp only [segments, List.splitOn_append_cons_self, List.filter_append]

theorem segments_cons_separator (text : List α) :
    segments separator (separator :: text) = segments separator text := by
  have happend : segments separator ([] ++ separator :: text) = _ := segments_append_cons [] text
  simpa [segments] using happend

theorem segments_of_notMem {text : List α} (hsep : separator ∉ text) (hne : text ≠ []) :
    segments separator text = [text] := by
  have hkeep : (!text.isEmpty) = true := by cases text <;> simp_all
  simp only [segments, List.splitOn_eq_singleton hsep, List.filter_cons, hkeep, if_true,
    List.filter_nil]

theorem mem_splitOn_notMem {text piece : List α} (hmem : piece ∈ text.splitOn separator) :
    separator ∉ piece := by
  induction text generalizing piece with
  | nil =>
      rw [List.splitOn_nil, List.mem_singleton] at hmem
      simp [hmem]
  | cons c rest ih =>
      rw [List.splitOn_cons_eq_if_modifyHead] at hmem
      obtain ⟨head, tail, hsplit⟩ := List.exists_cons_of_ne_nil (List.splitOn_ne_nil separator rest)
      rw [hsplit] at ih hmem
      split at hmem
      · rcases List.mem_cons.mp hmem with rfl | hmem
        · simp
        · exact ih hmem
      · rename_i hc
        rcases List.mem_cons.mp hmem with rfl | hmem
        · have hc : separator ≠ c := by simpa using Ne.symm (by simpa using hc)
          simp [hc, ih List.mem_cons_self]
        · exact ih (List.mem_cons_of_mem _ hmem)

theorem mem_segments {text piece : List α} (hmem : piece ∈ segments separator text) :
    piece ≠ [] ∧ separator ∉ piece := by
  obtain ⟨hsplit, hkeep⟩ := List.mem_filter.mp hmem
  exact ⟨by simpa using hkeep, mem_splitOn_notMem hsplit⟩

omit [LawfulBEq α] in
theorem subset_of_mem_splitOn {text piece : List α} (hmem : piece ∈ text.splitOn separator) :
    piece ⊆ text := by
  induction text generalizing piece with
  | nil =>
      rw [List.splitOn_nil, List.mem_singleton] at hmem
      simp [hmem]
  | cons c rest ih =>
      rw [List.splitOn_cons_eq_if_modifyHead] at hmem
      obtain ⟨head, tail, hsplit⟩ := List.exists_cons_of_ne_nil (List.splitOn_ne_nil separator rest)
      rw [hsplit] at ih hmem
      split at hmem
      · rcases List.mem_cons.mp hmem with rfl | hmem
        · exact List.nil_subset _
        · exact List.subset_cons_of_subset c (ih hmem)
      · rcases List.mem_cons.mp hmem with rfl | hmem
        · exact List.cons_subset_cons c (ih List.mem_cons_self)
        · exact List.subset_cons_of_subset c (ih (List.mem_cons_of_mem _ hmem))

omit [LawfulBEq α] in
theorem subset_of_mem_segments {text piece : List α} (hmem : piece ∈ segments separator text) :
    piece ⊆ text :=
  subset_of_mem_splitOn (List.mem_filter.mp hmem).1

omit [LawfulBEq α] in
-- The first segment is the first piece between separators that is not empty.
theorem head?_segments (text : List α) :
    (segments separator text).head? = (text.splitOn separator).find? (!·.isEmpty) := by
  rw [segments, List.head?_filter]

end Pieces

variable {separator : Char}

theorem join_cons_cons (first second : Text) (rest : List Text) :
    join separator (first :: second :: rest) =
      first ++ separator :: join separator (second :: rest) := by
  rw [join, List.intercalate_cons_cons, List.append_assoc, List.singleton_append]
  rfl

theorem mem_join {c : Char} {parts : List Text} (h : c ∈ join separator parts) :
    c = separator ∨ ∃ part ∈ parts, c ∈ part := by
  induction parts with
  | nil => cases h
  | cons part more ih =>
      cases more with
      | nil => exact Or.inr ⟨part, List.mem_cons_self, by simpa [join] using h⟩
      | cons second more =>
          rw [join_cons_cons, List.mem_append, List.mem_cons] at h
          rcases h with hpart | hseparator | hmore
          · exact Or.inr ⟨part, List.mem_cons_self, hpart⟩
          · exact Or.inl hseparator
          · refine (ih hmore).imp_right ?_
            rintro ⟨other, hmem, hc⟩
            exact ⟨other, List.mem_cons_of_mem _ hmem, hc⟩

-- Names without separators are read back from the text they are joined to.
theorem segments_join (parts : List Text) (hne : ∀ part ∈ parts, part ≠ [])
    (hsep : ∀ part ∈ parts, separator ∉ part) :
    segments separator (join separator parts) = parts := by
  by_cases hnil : parts = []
  · subst hnil
    simp [segments, join]
  · have hkeep : ∀ part ∈ parts, (!part.isEmpty) = true := by
      intro part hmem
      simpa using hne part hmem
    rw [segments, join, List.splitOn_intercalate separator hsep hnil, List.filter_eq_self.mpr hkeep]

-- The number of characters in all of several names.
def volume (names : List Text) : Nat := names.flatten.length

@[simp] theorem volume_nil : volume [] = 0 := rfl

@[simp] theorem volume_cons (name : Text) (rest : List Text) :
    volume (name :: rest) = name.length + volume rest := by simp [volume]

@[simp] theorem volume_append (names more : List Text) :
    volume (names ++ more) = volume names + volume more := by simp [volume]

theorem volume_splitOn_le (separator : Char) (text : Text) :
    volume (text.splitOn separator) ≤ text.length := by
  induction text with
  | nil => simp
  | cons c rest ih =>
      obtain ⟨head, tail, hsplit⟩ := List.exists_cons_of_ne_nil (List.splitOn_ne_nil separator rest)
      rw [List.splitOn_cons_eq_if_modifyHead]
      rw [hsplit] at ih ⊢
      simp only [volume_cons] at ih
      split
      · simp only [volume_cons, List.length_nil, List.length_cons]
        omega
      · simp only [List.modifyHead_cons, volume_cons, List.length_cons]
        omega

theorem volume_filter_le (keep : Text → Bool) (names : List Text) :
    volume (names.filter keep) ≤ volume names := by
  induction names with
  | nil => simp
  | cons name rest ih =>
      rw [List.filter_cons]
      split
      · simp only [volume_cons]
        omega
      · simp only [volume_cons]
        omega

theorem volume_dropLast_le (names : List Text) : volume names.dropLast ≤ volume names := by
  rcases List.eq_nil_or_concat names with rfl | ⟨before, last, rfl⟩
  · simp
  · simp [List.concat_eq_append]

end WorkspaceImports.Text

import WorkspaceImports.Proofs.Text.Segments
import WorkspaceImports.Text.Basic

namespace WorkspaceImports.Text

variable {left right rest : Text} {c : Char}

theorem unifyNewlines_cons (hc : c ≠ '\r') (rest : Text) :
    unifyNewlines (c :: rest) = c :: unifyNewlines rest := by
  rw [unifyNewlines]
  · intro more hreturn
    exact absurd hreturn hc
  · exact hc

-- A carriage return without a line feed after it.
theorem unifyNewlines_return (hrest : rest.head? ≠ some '\n') :
    unifyNewlines ('\r' :: rest) = '\n' :: unifyNewlines rest := by
  rw [unifyNewlines]
  rintro more rfl
  simp at hrest

theorem getLast?_cons_of_some {d : Char} (h : rest.getLast? = some d) :
    (c :: rest).getLast? = some d := by
  simp [List.getLast?_cons, h]

-- The line ends of two parts are unified in each part on its own, unless one stands across them.
theorem unifyNewlines_append (h : left.getLast? = some '\r' → right.head? ≠ some '\n') :
    unifyNewlines (left ++ right) = unifyNewlines left ++ unifyNewlines right := by
  fun_induction unifyNewlines left with
  | case1 => rfl
  | case2 rest ih =>
      have hrest := ih fun hlast => h (getLast?_cons_of_some (getLast?_cons_of_some hlast))
      rw [List.cons_append, List.cons_append, unifyNewlines, hrest]
      rfl
  | case3 rest hline ih =>
      have hrest := ih fun hlast => h (getLast?_cons_of_some hlast)
      have hhead : (rest ++ right).head? ≠ some '\n' := by
        cases rest with
        | nil => exact h rfl
        | cons c more =>
            rw [List.cons_append, List.head?_cons]
            intro hc
            cases hc
            exact hline more rfl
      rw [List.cons_append, unifyNewlines_return hhead, hrest]
      rfl
  | case4 c rest _ hc ih =>
      have hrest := ih fun hlast => h (getLast?_cons_of_some hlast)
      rw [List.cons_append, unifyNewlines_cons hc, hrest]
      rfl

-- A character that is no part of a line end parts the ones before it from those after it.
theorem unifyNewlines_solid (hreturn : c ≠ '\r') (hline : c ≠ '\n') :
    unifyNewlines (left ++ c :: right) = unifyNewlines left ++ c :: unifyNewlines right := by
  rw [unifyNewlines_append fun _ => by simpa using hline, unifyNewlines_cons hreturn]

theorem unifyNewlines_join (hreturn : c ≠ '\r') (hline : c ≠ '\n') (parts : List Text) :
    unifyNewlines (join c parts) = join c (parts.map unifyNewlines) := by
  induction parts with
  | nil => rfl
  | cons part more ih =>
      cases more with
      | nil => simp [join]
      | cons second more =>
          rw [join_cons_cons, unifyNewlines_solid hreturn hline, ih]
          simp only [List.map_cons, join_cons_cons]

theorem unifyNewlines_of_notMem (h : '\r' ∉ left) : unifyNewlines left = left := by
  induction left with
  | nil => rfl
  | cons c rest ih =>
      simp only [List.mem_cons, not_or] at h
      rw [unifyNewlines_cons (Ne.symm h.1), ih h.2]

-- No other characters come up than line feeds.
theorem mem_unifyNewlines (h : c ∈ unifyNewlines left) : c = '\n' ∨ c ∈ left := by
  fun_induction unifyNewlines left with
  | case1 => cases h
  | case2 rest ih =>
      rcases List.mem_cons.mp h with rfl | hrest
      · exact Or.inl rfl
      · exact (ih hrest).imp_right fun hmem =>
          List.mem_cons_of_mem _ (List.mem_cons_of_mem _ hmem)
  | case3 rest _ ih =>
      rcases List.mem_cons.mp h with rfl | hrest
      · exact Or.inl rfl
      · exact (ih hrest).imp_right (List.mem_cons_of_mem _)
  | case4 d rest _ hd ih =>
      rcases List.mem_cons.mp h with rfl | hrest
      · exact Or.inr List.mem_cons_self
      · exact (ih hrest).imp_right (List.mem_cons_of_mem _)

end WorkspaceImports.Text

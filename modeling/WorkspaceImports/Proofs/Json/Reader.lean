import WorkspaceImports.Json.Reader

namespace WorkspaceImports.Json.Reader

theorem map_eq_error_iff {α β : Type} {read : Read α} {f : α × Nat → β × Nat} {stop : Stop} :
    read.map f = .error stop ↔ read = .error stop := by
  cases read <;> simp [Except.map]

theorem map_eq_ok_iff {α β : Type} {read : Read α} {f : α × Nat → β × Nat} {found : β × Nat} :
    read.map f = .ok found ↔ ∃ part, read = .ok part ∧ f part = found := by
  cases read <;> simp [Except.map]

section Containers

variable {value : Text → Read Json} {text rest : Text}

theorem items_stop {stop : Stop} (hfirst : value text = .error stop) :
    items value text = .error stop := by
  rw [items]
  simp only [hfirst]

theorem items_last {item : Json} {count : Nat} (hfirst : value text = .ok (item, count))
    (hrest : text.drop (count + blankCount (text.drop count)) = ']' :: rest) :
    items value text = .ok ([item], count + blankCount (text.drop count) + 1) := by
  rw [items]
  simp only [hfirst]
  split <;> simp_all

theorem items_next {item : Json} {count : Nat} (hfirst : value text = .ok (item, count))
    (hrest : text.drop (count + blankCount (text.drop count)) = ',' :: rest) :
    items value text = (items value (rest.drop (blankCount rest))).map fun (more, length) =>
      (item :: more, count + blankCount (text.drop count) + 1 + blankCount rest + length) := by
  rw [items]
  simp only [hfirst]
  split <;> simp_all [Except.map]
  cases items value (rest.drop (blankCount rest)) <;> rfl

theorem members_stop {stop : Stop} (hfirst : member value text = .error stop) :
    members value text = .error stop := by
  rw [members]
  simp only [hfirst]

theorem members_last {item : Text × Json} {count : Nat}
    (hfirst : member value text = .ok (item, count))
    (hrest : text.drop (count + blankCount (text.drop count)) = '}' :: rest) :
    members value text = .ok ([item], count + blankCount (text.drop count) + 1) := by
  rw [members]
  simp only [hfirst]
  split <;> simp_all

theorem members_next {item : Text × Json} {count : Nat}
    (hfirst : member value text = .ok (item, count))
    (hrest : text.drop (count + blankCount (text.drop count)) = ',' :: rest) :
    members value text = (members value (rest.drop (blankCount rest))).map fun (more, length) =>
      (item :: more, count + blankCount (text.drop count) + 1 + blankCount rest + length) := by
  rw [members]
  simp only [hfirst]
  split <;> simp_all [Except.map]
  cases members value (rest.drop (blankCount rest)) <;> rfl

end Containers

section Value

variable {depth : Nat} {rest tail : Text}

theorem value_emptyArray (h : rest.drop (blankCount rest) = ']' :: tail) :
    value (depth + 1) ('[' :: rest) = .ok (.array [], blankCount rest + 2) := by
  simp only [value, h]

theorem value_array (h : (rest.drop (blankCount rest)).head? ≠ some ']') :
    value (depth + 1) ('[' :: rest) = (items (value depth) (rest.drop (blankCount rest))).map
      fun (found, count) => (.array found, 1 + blankCount rest + count) := by
  simp only [value]
  split
  · rename_i hclose
    simp [hclose] at h
  · rfl

theorem value_emptyObject (h : rest.drop (blankCount rest) = '}' :: tail) :
    value (depth + 1) ('{' :: rest) = .ok (.object [], blankCount rest + 2) := by
  simp only [value, h]

theorem value_object (h : (rest.drop (blankCount rest)).head? ≠ some '}') :
    value (depth + 1) ('{' :: rest) = (members (value depth) (rest.drop (blankCount rest))).map
      fun (found, count) => (.object found, 1 + blankCount rest + count) := by
  simp only [value]
  split
  · rename_i hclose
    simp [hclose] at h
  · rfl

theorem value_scalar {text : Text} (harray : text.head? ≠ some '[')
    (hobject : text.head? ≠ some '{') : value depth text = scalar text := by
  cases depth <;> simp only [value] <;> split <;> simp_all

end Value

end WorkspaceImports.Json.Reader

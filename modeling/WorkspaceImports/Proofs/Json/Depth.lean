import WorkspaceImports.Proofs.Json.Limits

namespace WorkspaceImports.Json

mutual

-- How many containers of a value stand in each other.
def height : Json → Nat
  | .array found => itemsHeight found + 1
  | .object found => membersHeight found + 1
  | _ => 0

def itemsHeight : List Json → Nat
  | [] => 0
  | item :: rest => max item.height (itemsHeight rest)

def membersHeight : List (Text × Json) → Nat
  | [] => 0
  | (_, item) :: rest => max item.height (membersHeight rest)

end

theorem itemsHeight_le_iff {limit : Nat} {items : List Json} :
    itemsHeight items ≤ limit ↔ ∀ item ∈ items, item.height ≤ limit := by
  induction items with
  | nil => simp [itemsHeight]
  | cons item rest ih => rw [itemsHeight, Nat.max_le, ih, List.forall_mem_cons]

theorem membersHeight_le_iff {limit : Nat} {members : List (Text × Json)} :
    membersHeight members ≤ limit ↔ ∀ member ∈ members, member.2.height ≤ limit := by
  induction members with
  | nil => simp [membersHeight]
  | cons member rest ih => rw [membersHeight, Nat.max_le, ih, List.forall_mem_cons]

namespace Reader

-- What a reader with a limit answers where one without finds a value: the same, or that the value
-- is too deep.
def Limited {α : Type} (limit height : Nat) (answer : Read α) (found : α × Nat) : Prop :=
  (height ≤ limit ∧ answer = .ok found) ∨
    (limit < height ∧ ∃ container, answer = .error (.tooDeep container))

section Limited

variable {α β γ : Type} {limit height more : Nat} {first : Read α} {rest : Read β} {whole : Read γ}
  {found : α × Nat} {foundMore : β × Nat}

-- A reader that only goes on where another one ends is limited as that one is.
theorem Limited.along {foundWhole : γ × Nat} (hfirst : Limited limit height first found)
    (hstop : ∀ {stop}, first = .error stop → whole = .error stop)
    (hgo : first = .ok found → whole = .ok foundWhole) :
    Limited limit height whole foundWhole := by
  rcases hfirst with ⟨hheight, hanswer⟩ | ⟨hheight, container, hanswer⟩
  · exact Or.inl ⟨hheight, hgo hanswer⟩
  · exact Or.inr ⟨hheight, container, hstop hanswer⟩

theorem Limited.enter {f : α × Nat → γ × Nat} (hfirst : Limited limit height first found) :
    Limited (limit + 1) (height + 1) (first.map f) (f found) := by
  rcases hfirst with ⟨hheight, rfl⟩ | ⟨hheight, container, rfl⟩
  · exact Or.inl ⟨by omega, rfl⟩
  · exact Or.inr ⟨by omega, container, rfl⟩

-- Of two values one after the other the higher one counts.
theorem Limited.next {f : β × Nat → γ × Nat} (hfirst : Limited limit height first found)
    (hrest : Limited limit more rest foundMore)
    (hstop : ∀ {stop}, first = .error stop → whole = .error stop)
    (hgo : first = .ok found → whole = rest.map f) :
    Limited limit (max height more) whole (f foundMore) := by
  rcases hfirst with ⟨hheight, hanswer⟩ | ⟨hheight, container, hanswer⟩
  · rcases hrest with ⟨hmore, hrest⟩ | ⟨hmore, container, hrest⟩
    · refine Or.inl ⟨by omega, ?_⟩
      rw [hgo hanswer, hrest]
      rfl
    · refine Or.inr ⟨by omega, container, ?_⟩
      rw [hgo hanswer, hrest]
      rfl
  · exact Or.inr ⟨by omega, container, hstop hanswer⟩

end Limited

-- A member is read as far as its value is.
theorem member_along {deep : Text → Read Json} {text name : Text} {item : Json} {count : Nat}
    (h : member deep text = .ok ((name, item), count)) :
    ∃ part length, deep part = .ok (item, length) ∧ ∀ value : Text → Read Json,
      (∀ {stop}, value part = .error stop → member value text = .error stop) ∧
      (value part = .ok (item, length) → member value text = .ok ((name, item), count)) := by
  unfold member at h
  split at h
  · cases h
  rename_i hquote
  split at h
  · cases h
  rename_i letters read hname
  dsimp only at h
  split at h
  · rename_i rest hrest
    split at h
    · cases h
    · rename_i other length hitem
      cases h
      refine ⟨_, length, hitem, ?_⟩
      intro value
      simp only [member, hquote, if_false, hname, hrest]
      constructor
      · intro stop hstop
        simp only [hstop]
      · intro hvalue
        simp only [hvalue]
  · cases h

section Containers

variable {deep value : Text → Read Json} {limit : Nat} {text : Text} {count : Nat}
  (hvalue : ∀ {text json count}, deep text = .ok (json, count) →
    Limited limit json.height (value text) (json, count))

include hvalue

theorem items_limited {found : List Json} (h : items deep text = .ok (found, count)) :
    Limited limit (itemsHeight found) (items value text) (found, count) := by
  fun_induction items deep text generalizing found count with
  | case1 => cases h
  | case2 text item length hfirst =>
      rename_i hrest
      cases h
      have hlast := (hvalue hfirst).along items_stop fun hitem => items_last hitem hrest
      simpa [itemsHeight] using hlast
  | case3 => cases h
  | case4 text item length hfirst read rest hrest more =>
      rename_i hmore ih
      cases h
      exact (hvalue hfirst).next (ih hmore) items_stop fun hitem => items_next hitem hrest
  | case5 => cases h

theorem members_limited {found : List (Text × Json)} (h : members deep text = .ok (found, count)) :
    Limited limit (membersHeight found) (members value text) (found, count) := by
  have hmember : ∀ {text name json count}, member deep text = .ok ((name, json), count) →
      Limited limit json.height (member value text) ((name, json), count) := by
    intro _ _ _ _ h
    obtain ⟨part, length, hitem, halong⟩ := member_along h
    obtain ⟨hstop, hgo⟩ := halong value
    exact (hvalue hitem).along hstop hgo
  fun_induction members deep text generalizing found count with
  | case1 => cases h
  | case2 text item length hfirst =>
      rename_i hrest
      cases h
      have hlast := (hmember hfirst).along members_stop fun hitem => members_last hitem hrest
      simpa [membersHeight] using hlast
  | case3 => cases h
  | case4 text item length hfirst read rest hrest more =>
      rename_i hmore ih
      cases h
      exact (hmember hfirst).next (ih hmore) members_stop fun hitem => members_next hitem hrest
  | case5 => cases h

end Containers

theorem height_of_scalar {text : Text} {json : Json} {count : Nat}
    (h : scalar text = .ok (json, count)) : json.height = 0 := by
  unfold scalar at h
  split at h
  · obtain ⟨⟨letters, read⟩, _, hjson⟩ := map_eq_ok_iff.mp h
    cases hjson
    unfold ofLetters
    split <;> rfl
  split at h
  · rename_i found hword
    cases h
    unfold word? at hword
    repeat' split at hword
    all_goals cases hword
    all_goals rfl
  · obtain ⟨⟨number, read⟩, _, hjson⟩ := map_eq_ok_iff.mp h
    cases hjson
    rfl

-- Whatever the limit is under which a value is found, under another one it is found or too deep.
theorem value_limited {depth limit : Nat} {text : Text} {json : Json} {count : Nat}
    (h : value depth text = .ok (json, count)) :
    Limited limit json.height (value limit text) (json, count) := by
  induction depth generalizing limit text json count with
  | zero =>
      have harray : text.head? ≠ some '[' := by
        intro hhead
        obtain ⟨rest, rfl⟩ := List.head?_eq_some_iff.mp hhead
        cases h
      have hobject : text.head? ≠ some '{' := by
        intro hhead
        obtain ⟨rest, rfl⟩ := List.head?_eq_some_iff.mp hhead
        cases h
      rw [value_scalar harray hobject] at h ⊢
      exact Or.inl ⟨by rw [height_of_scalar h]; omega, h⟩
  | succ depth ih =>
      by_cases harray : text.head? = some '['
      · obtain ⟨rest, rfl⟩ := List.head?_eq_some_iff.mp harray
        by_cases hclose : (rest.drop (blankCount rest)).head? = some ']'
        · obtain ⟨tail, htail⟩ := List.head?_eq_some_iff.mp hclose
          rw [value_emptyArray htail] at h
          cases h
          cases limit with
          | zero => exact Or.inr ⟨by simp [height], .array, rfl⟩
          | succ limit => exact Or.inl ⟨by simp [height, itemsHeight], value_emptyArray htail⟩
        · rw [value_array hclose] at h
          obtain ⟨⟨found, read⟩, hitems, hjson⟩ := map_eq_ok_iff.mp h
          cases hjson
          cases limit with
          | zero => exact Or.inr ⟨by simp [height], .array, rfl⟩
          | succ limit =>
              rw [value_array hclose]
              exact (items_limited (fun hvalue => ih hvalue) hitems).enter
      by_cases hobject : text.head? = some '{'
      · obtain ⟨rest, rfl⟩ := List.head?_eq_some_iff.mp hobject
        by_cases hclose : (rest.drop (blankCount rest)).head? = some '}'
        · obtain ⟨tail, htail⟩ := List.head?_eq_some_iff.mp hclose
          rw [value_emptyObject htail] at h
          cases h
          cases limit with
          | zero => exact Or.inr ⟨by simp [height], .object, rfl⟩
          | succ limit => exact Or.inl ⟨by simp [height, membersHeight], value_emptyObject htail⟩
        · rw [value_object hclose] at h
          obtain ⟨⟨found, read⟩, hmembers, hjson⟩ := map_eq_ok_iff.mp h
          cases hjson
          cases limit with
          | zero => exact Or.inr ⟨by simp [height], .object, rfl⟩
          | succ limit =>
              rw [value_object hclose]
              exact (members_limited (fun hvalue => ih hvalue) hmembers).enter
      · rw [value_scalar harray hobject] at h ⊢
        exact Or.inl ⟨by rw [height_of_scalar h]; omega, h⟩

-- The reading of a text with another limit than the usual one.
def readTo (limit : Nat) (text : Text) : Except Stop Json :=
  if text.head? = some '\uFEFF' then malformedAt .byteOrderMark text
  else
    let blanks := blankCount text
    match value limit (text.drop blanks) with
    | .error stop => .error stop
    | .ok (found, count) =>
        let rest := text.drop (blanks + count)
        match rest.drop (blankCount rest) with
        | [] => .ok found
        | rest => malformedAt .extra rest

theorem read_eq_readTo (text : Text) : read text = readTo depthLimit text := rfl

-- A text that holds a value is read if the containers in each other are not too many, and they are
-- the reason if it is not.
theorem readTo_limited {depth : Nat} {text : Text} {json : Json} (limit : Nat)
    (h : readTo depth text = .ok json) :
    (json.height ≤ limit ∧ readTo limit text = .ok json) ∨
      (limit < json.height ∧ ∃ container, readTo limit text = .error (.tooDeep container)) := by
  unfold readTo malformedAt at h ⊢
  split at h
  · cases h
  rename_i hmark
  rw [if_neg hmark]
  dsimp only at h ⊢
  split at h
  · cases h
  rename_i found count hvalue
  split at h
  · rename_i hrest
    cases h
    rcases value_limited hvalue with ⟨hheight, hlimited⟩ | ⟨hheight, container, hlimited⟩
    · exact Or.inl ⟨hheight, by simp only [hlimited, hrest]⟩
    · exact Or.inr ⟨hheight, container, by simp only [hlimited]⟩
  · cases h

end Reader

end WorkspaceImports.Json

import WorkspaceImports.Proofs.Json.Reader

namespace WorkspaceImports.Json.Reader

-- The number of characters that can open a container.
def openings (text : Text) : Nat := text.countP fun c => c == '[' || c == '{'

-- What has to stand in a text for a stop to come from it, if it is read with at most so many
-- containers in each other.
def Stop.Explained (depth : Nat) (text : Text) : Stop → Prop
  | .malformed _ _ => True
  | .hugeInteger digits => digitLimit < digits ∧
      ∃ run, run <:+: text ∧ run.length = digits ∧ ∀ c ∈ run, c.isDigit = true
  | .tooDeep _ => depth < openings text

theorem Stop.Explained.mono {stop : Stop} {depth : Nat} {text whole : Text}
    (h : stop.Explained depth text) (hpart : text <:+ whole) : stop.Explained depth whole := by
  cases stop with
  | malformed fault left => trivial
  | hugeInteger digits =>
      obtain ⟨hdigits, run, hrun, hlength, hall⟩ := h
      exact ⟨hdigits, run, hrun.trans hpart.isInfix, hlength, hall⟩
  | tooDeep container => exact Nat.lt_of_lt_of_le h (List.Sublist.countP_le hpart.sublist)

section Leaves

variable {text : Text} {stop : Stop} {opening : Nat}

theorem escape_error (h : escape opening text = .error stop) :
    ∃ fault left, stop = .malformed fault left := by
  unfold escape malformedAt at h
  split at h
  · cases h
    exact ⟨_, _, rfl⟩
  · split at h
    · cases h
      exact ⟨_, _, rfl⟩
    split at h
    · split at h
      · split at h
        · cases h
          exact ⟨_, _, rfl⟩
        · split at h <;> cases h
      · cases h
    · cases h
  · split at h
    · cases h
    · cases h
      exact ⟨_, _, rfl⟩

theorem letters_error (h : letters opening text = .error stop) :
    ∃ fault left, stop = .malformed fault left := by
  fun_induction letters opening text with
  | case1 =>
      cases h
      exact ⟨_, _, rfl⟩
  | case2 => cases h
  | case3 rest other hescape =>
      cases h
      exact escape_error hescape
  | case4 rest letter count hescape other hletters ih =>
      cases h
      exact ih hletters
  | case5 => cases h
  | case6 =>
      cases h
      exact ⟨_, _, rfl⟩
  | case7 c rest hquote hslash hcontrol other hletters ih =>
      cases h
      exact ih hletters
  | case8 => cases h

theorem string_error (h : string text = .error stop) :
    ∃ fault left, stop = .malformed fault left := by
  unfold string at h
  split at h
  · rename_i hletters
    cases h
    exact letters_error hletters
  · cases h

theorem wholeCount_le (text : Text) : wholeCount text ≤ (digitCount text) := by
  unfold wholeCount
  split
  · simp [digitCount]
  · exact Nat.le_refl _

theorem number_error (depth : Nat) (h : number text = .error stop) : stop.Explained depth text := by
  simp only [number] at h
  generalize hbody : text.drop (if text.head? = some '-' then 1 else 0) = body at h
  split at h
  · cases h
    trivial
  split at h
  · rename_i hlimit
    cases h
    have hdigits := wholeCount_le body
    refine ⟨hlimit.2.2, (body.takeWhile Char.isDigit).take (wholeCount body), ?_, ?_, ?_⟩
    · have hbodypart : body <:+ text := hbody ▸ List.drop_suffix _ _
      exact ((List.take_prefix _ _).trans (List.takeWhile_prefix _)).isInfix.trans hbodypart.isInfix
    · exact List.length_take_of_le hdigits
    · intro c hmem
      exact List.all_eq_true.mp List.all_takeWhile c (List.mem_of_mem_take hmem)
  · cases h

theorem scalar_error (depth : Nat) (h : scalar text = .error stop) : stop.Explained depth text := by
  unfold scalar at h
  split at h
  · obtain ⟨fault, left, rfl⟩ := string_error (map_eq_error_iff.mp h)
    trivial
  · split at h
    · cases h
    · exact number_error depth (map_eq_error_iff.mp h)

end Leaves

section Containers

variable {value : Text → Read Json} {text : Text} {stop : Stop} {depth : Nat}

theorem drop_blanks_suffix {count : Nat} {c : Char} {rest : Text}
    (h : text.drop count = c :: rest) : rest.drop (blankCount rest) <:+ text := by
  have hrest : rest <:+ text := (List.suffix_cons c rest).trans (h ▸ List.drop_suffix _ _)
  exact (List.drop_suffix _ _).trans hrest

theorem items_error (hvalue : ∀ {part stop}, value part = .error stop → stop.Explained depth part)
    (h : items value text = .error stop) : stop.Explained depth text := by
  fun_induction items value text with
  | case1 text other hfirst =>
      cases h
      exact hvalue hfirst
  | case2 => cases h
  | case3 text item count hfirst read rest hrest other hitems ih =>
      cases h
      exact (ih hitems).mono (drop_blanks_suffix hrest)
  | case4 => cases h
  | case5 =>
      cases h
      trivial

theorem member_error (hvalue : ∀ {part stop}, value part = .error stop → stop.Explained depth part)
    (h : member value text = .error stop) : stop.Explained depth text := by
  unfold member at h
  split at h
  · cases h
    trivial
  split at h
  · rename_i hname
    cases h
    obtain ⟨fault, left, rfl⟩ := string_error hname
    trivial
  dsimp only at h
  split at h
  · rename_i hrest
    split at h
    · rename_i hitem
      cases h
      exact (hvalue hitem).mono (drop_blanks_suffix hrest)
    · cases h
  · cases h
    trivial

theorem members_error (hvalue : ∀ {part stop}, value part = .error stop → stop.Explained depth part)
    (h : members value text = .error stop) : stop.Explained depth text := by
  fun_induction members value text with
  | case1 text other hfirst =>
      cases h
      exact member_error hvalue hfirst
  | case2 => cases h
  | case3 text item count hfirst read rest hrest other hmembers ih =>
      cases h
      exact (ih hmembers).mono (drop_blanks_suffix hrest)
  | case4 => cases h
  | case5 =>
      cases h
      trivial

end Containers

theorem Stop.Explained.enter {stop : Stop} {depth : Nat} {text : Text} {c : Char}
    (h : stop.Explained depth text) (hc : c = '[' ∨ c = '{') :
    stop.Explained (depth + 1) (c :: text) := by
  cases stop with
  | malformed fault left => trivial
  | hugeInteger digits => exact Stop.Explained.mono h (List.suffix_cons c text)
  | tooDeep container =>
      have hopenings : openings (c :: text) = openings text + 1 := by
        rcases hc with rfl | rfl <;> simp [openings]
      simp only [Stop.Explained] at h ⊢
      omega

theorem value_error {depth : Nat} {text : Text} {stop : Stop} (h : value depth text = .error stop) :
    stop.Explained depth text := by
  induction depth generalizing text stop with
  | zero =>
      unfold value at h
      split at h
      · cases h
        simp [Stop.Explained, openings]
      · cases h
        simp [Stop.Explained, openings]
      · exact scalar_error 0 h
  | succ depth ih =>
      unfold value at h
      split at h
      · dsimp only at h
        split at h
        · cases h
        · have hitems := items_error ih (map_eq_error_iff.mp h)
          exact (hitems.mono (List.drop_suffix _ _)).enter (Or.inl rfl)
      · dsimp only at h
        split at h
        · cases h
        · have hmembers := members_error ih (map_eq_error_iff.mp h)
          exact (hmembers.mono (List.drop_suffix _ _)).enter (Or.inr rfl)
      · exact scalar_error (depth + 1) h

theorem read_error {text : Text} {stop : Stop} (h : read text = .error stop) :
    stop.Explained depthLimit text := by
  unfold read malformedAt at h
  split at h
  · cases h
    trivial
  dsimp only at h
  split at h
  · rename_i hvalue
    cases h
    exact (value_error hvalue).mono (List.drop_suffix _ _)
  · split at h
    · cases h
    · cases h
      trivial

end WorkspaceImports.Json.Reader

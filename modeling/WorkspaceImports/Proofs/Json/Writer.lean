import WorkspaceImports.Proofs.Json.Spelling

namespace WorkspaceImports

theorem Text.hexValue?_digitChar : ∀ n < 16, Text.hexValue? (Nat.digitChar n) = some n := by
  decide

namespace Json

-- A character as it is written in a string. Beyond what has to be escaped, all that is no ASCII
-- character may be, by its code or by its two halves.
def escapeChar (ascii : Bool) (c : Char) : Text :=
  if c = '"' ∨ c = '\\' then ['\\', c]
  else if 0x20 ≤ c.toNat ∧ (ascii = false ∨ c.toNat < 0x80) then [c]
  else if c.toNat < 0x10000 then '\\' :: 'u' :: Text.hexDigits 4 c.toNat
  else '\\' :: 'u' :: Text.hexDigits 4 (highHalf c) ++ '\\' :: 'u' :: Text.hexDigits 4 (lowHalf c)

def quote (ascii : Bool) (text : Text) : Text :=
  '"' :: (text.flatMap (escapeChar ascii) ++ ['"'])

theorem digits_hexDigits {code : Nat} (h : code < 0x10000) :
    Digits code (Text.hexDigits 4 code) := by
  have hvalue (n : Nat) : Text.hexValue? (Nat.digitChar (n % 16)) = some (n % 16) :=
    Text.hexValue?_digitChar _ (Nat.mod_lt n (by decide))
  refine ⟨code / 16 / 16 / 16 % 16, code / 16 / 16 % 16, code / 16 % 16, code % 16, ?_, by omega⟩
  simp [Text.hexDigits, hvalue]

theorem spellsChar_escapeChar (ascii : Bool) (c : Char) : SpellsChar c (escapeChar ascii c) := by
  have hvalid : c.toNat < 0xD800 ∨ 0xDFFF < c.toNat ∧ c.toNat < 0x110000 := c.valid
  unfold escapeChar
  split
  · rename_i hspecial
    refine .short ?_
    rcases hspecial with rfl | rfl <;> simp [shortEscapes]
  rename_i hspecial
  rw [not_or] at hspecial
  split
  · rename_i hplain
    exact .raw hspecial.1 hspecial.2 hplain.1
  split
  · exact .code (digits_hexDigits ‹_›)
  · rename_i hbeyond
    refine .halves (by omega) (digits_hexDigits ?_) (digits_hexDigits ?_)
    · unfold highHalf
      omega
    · unfold lowHalf
      omega

theorem quotes_quote (ascii : Bool) (text : Text) : Quotes text (quote ascii text) := by
  refine ⟨_, ?_, rfl⟩
  induction text with
  | nil => exact .nil
  | cons c rest ih => exact .cons (spellsChar_escapeChar ascii c) ih

theorem ascii_hexDigits (width n : Nat) : ∀ c ∈ Text.hexDigits width n, c.toNat < 0x80 := by
  have hdigit : ∀ n < 16, (Nat.digitChar n).toNat < 0x80 := by decide
  induction width generalizing n with
  | zero => simp [Text.hexDigits]
  | succ width ih =>
      intro c hmem
      rcases List.mem_append.mp hmem with hmem | hmem
      · exact ih _ c hmem
      · rw [List.mem_singleton.mp hmem]
        exact hdigit _ (Nat.mod_lt n (by decide))

theorem ascii_quote (text : Text) : ∀ c ∈ quote true text, c.toNat < 0x80 := by
  have hchar (d : Char) : ∀ c ∈ escapeChar true d, c.toNat < 0x80 := by
    unfold escapeChar
    split
    · rename_i hspecial
      rcases hspecial with rfl | rfl <;> simp
    split
    · rename_i hplain
      simpa using hplain.2
    split
    · simpa using ascii_hexDigits 4 _
    · intro c hmem
      simp only [List.cons_append, List.mem_cons, List.mem_append] at hmem
      rcases hmem with rfl | rfl | hmem | rfl | rfl | hmem
      · decide
      · decide
      · exact ascii_hexDigits 4 _ c hmem
      · decide
      · decide
      · exact ascii_hexDigits 4 _ c hmem
  intro c hmem
  simp only [quote, List.mem_cons, List.mem_append, List.mem_flatMap, List.not_mem_nil,
    or_false] at hmem
  rcases hmem with rfl | ⟨d, -, hmem⟩ | rfl
  · decide
  · exact hchar d c hmem
  · decide

end Json

end WorkspaceImports

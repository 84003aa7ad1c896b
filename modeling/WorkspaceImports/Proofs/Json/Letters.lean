import WorkspaceImports.Proofs.Json.Reader

namespace WorkspaceImports.Json

-- The characters that have an escape of one letter, with the letter.
def shortEscapes : List (Char × Char) :=
  [('"', '"'), ('\\', '\\'), ('/', '/'), ('\x08', 'b'), ('\x0C', 'f'), ('\n', 'n'), ('\r', 'r'),
    ('\t', 't')]

-- The two halves of the surrogate pair of a character beyond the first 10000.
def highHalf (c : Char) : Nat := 0xD800 + (c.toNat - 0x10000) / 0x400

def lowHalf (c : Char) : Nat := 0xDC00 + (c.toNat - 0x10000) % 0x400

-- A code in four hexadecimal digits, in upper or lower case.
def Digits (code : Nat) (written : Text) : Prop :=
  ∃ a b c d, written.map Text.hexValue? = [some a, some b, some c, some d] ∧
    code = ((a * 16 + b) * 16 + c) * 16 + d

-- The ways to write a character in a string: as it is, by the escape of one letter, by its code, or
-- by the codes of its two halves.
inductive SpellsChar (c : Char) : Text → Prop
  | raw (hquote : c ≠ '"') (hslash : c ≠ '\\') (hcontrol : 0x20 ≤ c.toNat) : SpellsChar c [c]
  | short {letter : Char} (h : (c, letter) ∈ shortEscapes) : SpellsChar c ['\\', letter]
  | code {written : Text} (h : Digits c.toNat written) : SpellsChar c ('\\' :: 'u' :: written)
  | halves {high low : Text} (hc : 0x10000 ≤ c.toNat) (hhigh : Digits (highHalf c) high)
      (hlow : Digits (lowHalf c) low) :
      SpellsChar c ('\\' :: 'u' :: high ++ '\\' :: 'u' :: low)

inductive SpellsText : Text → Text → Prop
  | nil : SpellsText [] []
  | cons {c : Char} {rest written more : Text} (hfirst : SpellsChar c written)
      (hrest : SpellsText rest more) : SpellsText (c :: rest) (written ++ more)

namespace Reader

section Letters

variable {opening : Nat} {rest : Text}

theorem letters_raw {c : Char} (hquote : c ≠ '"') (hslash : c ≠ '\\') (hcontrol : 0x20 ≤ c.toNat) :
    letters opening (c :: rest) =
      (letters opening rest).map fun (more, length) => (.char c :: more, 1 + length) := by
  have hlow : ¬c.toNat < 0x20 := by omega
  rw [letters]
  · rw [if_neg hlow]
    cases letters opening rest <;> rfl
  · exact hquote
  · exact hslash

theorem letters_escape {letter : Letter} {count : Nat}
    (h : escape opening rest = .ok (letter, count)) :
    letters opening ('\\' :: rest) = (letters opening (rest.drop count)).map
      fun (more, length) => (letter :: more, 1 + count + length) := by
  simp only [letters, h]
  cases letters opening (rest.drop count) <;> rfl

theorem escape_short {c letter : Char} (h : (c, letter) ∈ shortEscapes) :
    escape opening (letter :: rest) = .ok (.char c, 1) := by
  have hescaped : escaped? letter = some c := by
    revert h
    simp only [shortEscapes, List.mem_cons, Prod.mk.injEq, List.not_mem_nil, or_false]
    rintro (⟨rfl, rfl⟩ | ⟨rfl, rfl⟩ | ⟨rfl, rfl⟩ | ⟨rfl, rfl⟩ | ⟨rfl, rfl⟩ | ⟨rfl, rfl⟩ |
      ⟨rfl, rfl⟩ | ⟨rfl, rfl⟩) <;> rfl
  have hunit : letter ≠ 'u' := by
    rintro rfl
    cases hescaped
  rw [escape]
  · rw [hescaped]
  · exact hunit

theorem length_of_digits {code : Nat} {written : Text} (h : Digits code written) :
    written.length = 4 := by
  obtain ⟨a, b, c, d, hdigits, -⟩ := h
  have hlength := congrArg List.length hdigits
  rwa [List.length_map] at hlength

theorem code?_digits {code : Nat} {written : Text} (h : Digits code written) (hrest : rest ≠ []) :
    code? (written ++ rest) = some code := by
  obtain ⟨a, b, c, d, hdigits, rfl⟩ := h
  obtain ⟨next, rest, rfl⟩ := List.exists_cons_of_ne_nil hrest
  simp only [List.map_eq_cons_iff, List.map_eq_nil_iff] at hdigits
  obtain ⟨_, _, rfl, ha, _, _, rfl, hb, _, _, rfl, hc, _, _, rfl, hd, rfl⟩ := hdigits
  simp only [List.cons_append, List.nil_append, code?, ha, hb, hc, hd]

-- No character has the code of a half.
theorem escape_code (opening : Nat) {c : Char} {written : Text} (h : Digits c.toNat written)
    (hrest : rest ≠ []) : escape opening ('u' :: (written ++ rest)) = .ok (.char c, 5) := by
  have hvalid : c.toNat < 0xD800 ∨ 0xDFFF < c.toNat ∧ c.toNat < 0x110000 := c.valid
  have hhigh : isHighHalf c.toNat = false := by
    simp only [isHighHalf, Bool.and_eq_false_iff, decide_eq_false_iff_not]
    omega
  have hletter : Letter.ofCode c.toNat = .char c := by
    rw [Letter.ofCode, if_neg (by omega), Char.ofNat_toNat]
  simp only [escape, code?_digits h hrest, hhigh, hletter, Bool.false_eq_true, if_false]

theorem joinHalves_halves {c : Char} (hc : 0x10000 ≤ c.toNat) :
    joinHalves (highHalf c) (lowHalf c) = c := by
  have hcode : 0x10000 + (highHalf c - 0xD800) * 0x400 + (lowHalf c - 0xDC00) = c.toNat := by
    unfold highHalf lowHalf
    omega
  rw [joinHalves, hcode, Char.ofNat_toNat]

theorem escape_halves (opening : Nat) {c : Char} {high low : Text} (hc : 0x10000 ≤ c.toNat)
    (hhigh : Digits (highHalf c) high) (hlow : Digits (lowHalf c) low) (hrest : rest ≠ []) :
    escape opening ('u' :: (high ++ '\\' :: 'u' :: (low ++ rest))) = .ok (.char c, 11) := by
  have hvalid : c.toNat < 0xD800 ∨ 0xDFFF < c.toNat ∧ c.toNat < 0x110000 := c.valid
  have hhighs : 0xD800 ≤ highHalf c ∧ highHalf c < 0xDC00 := by
    unfold highHalf
    omega
  have hlows : 0xDC00 ≤ lowHalf c ∧ lowHalf c < 0xE000 := by
    unfold lowHalf
    omega
  have hishigh : isHighHalf (highHalf c) = true := by simp [isHighHalf, hhighs]
  have hislow : isLowHalf (lowHalf c) = true := by simp [isLowHalf, hlows]
  have hdrop : (high ++ '\\' :: 'u' :: (low ++ rest)).drop 4 = '\\' :: 'u' :: (low ++ rest) := by
    rw [← length_of_digits hhigh, List.drop_left]
  simp only [escape, code?_digits hhigh (List.cons_ne_nil _ _), hishigh, if_true, hdrop,
    code?_digits hlow hrest, hislow, joinHalves_halves hc]

-- A character is read from every way to write it, whatever follows.
theorem letters_append {c : Char} {written : Text} (h : SpellsChar c written) (hrest : rest ≠ []) :
    letters opening (written ++ rest) = (letters opening rest).map
      fun (more, length) => (.char c :: more, written.length + length) := by
  cases h with
  | raw hquote hslash hcontrol => exact letters_raw hquote hslash hcontrol
  | short hshort => exact letters_escape (escape_short hshort)
  | @code digits hdigits =>
      have hlength := length_of_digits hdigits
      have hdrop : ('u' :: (digits ++ rest)).drop 5 = rest := by
        rw [List.drop_succ_cons, ← hlength, List.drop_left]
      have hread := letters_escape (escape_code opening hdigits hrest)
      rw [hdrop] at hread
      simpa [hlength] using hread
  | @halves high low hc hhigh hlow =>
      have hlengths := length_of_digits hhigh
      have hlength := length_of_digits hlow
      have hread := letters_escape (escape_halves opening hc hhigh hlow hrest)
      have hdrop : ('u' :: (high ++ '\\' :: 'u' :: (low ++ rest))).drop 11 = rest := by
        have hsplit : 'u' :: (high ++ '\\' :: 'u' :: (low ++ rest)) =
            ('u' :: (high ++ '\\' :: 'u' :: low)) ++ rest := by simp
        have heleven : ('u' :: (high ++ '\\' :: 'u' :: low)).length = 11 := by
          simp [hlengths, hlength]
        rw [hsplit, ← heleven, List.drop_left]
      rw [hdrop] at hread
      simpa [hlengths, hlength] using hread

theorem letters_text {text written : Text} (h : SpellsText text written) :
    letters opening (written ++ '"' :: rest) = .ok (text.map .char, written.length + 1) := by
  induction h with
  | nil => rw [List.nil_append, letters]; rfl
  | cons hfirst hrest ih =>
      rw [List.append_assoc, letters_append hfirst (by simp), ih]
      simp [Except.map, Nat.add_assoc]

end Letters

end Reader

end WorkspaceImports.Json

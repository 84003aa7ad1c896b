import WorkspaceImports.Text.Utf8

namespace WorkspaceImports.Utf8

section Step

variable {byte : UInt8}

theorem first_one (h : byte.toNat < 0x80) : first byte = ([.char (.ofNat byte.toNat)], none) := by
  simp only [first, h, if_true]

theorem first_two (hlow : 0xC2 ≤ byte.toNat) (hhigh : byte.toNat < 0xE0) :
    first byte = ([], some ⟨byte.toNat - 0xC0, 1, 1, 0x80, 0xBF⟩) := by
  simp only [first]
  rw [if_neg (by omega), if_neg (by omega), if_pos hhigh]

theorem first_three (hlow : 0xE0 ≤ byte.toNat) (hhigh : byte.toNat < 0xF0) :
    first byte = ([], some ⟨byte.toNat - 0xE0, 1, 2, if byte.toNat = 0xE0 then 0xA0 else 0x80,
      if byte.toNat = 0xED then 0x9F else 0xBF⟩) := by
  simp only [first]
  rw [if_neg (by omega), if_neg (by omega), if_neg (by omega), if_pos hhigh]

theorem first_four (hlow : 0xF0 ≤ byte.toNat) (hhigh : byte.toNat < 0xF5) :
    first byte = ([], some ⟨byte.toNat - 0xF0, 1, 3, if byte.toNat = 0xF0 then 0x90 else 0x80,
      if byte.toNat = 0xF4 then 0x8F else 0xBF⟩) := by
  simp only [first]
  rw [if_neg (by omega), if_neg (by omega), if_neg (by omega), if_neg (by omega), if_pos hhigh]

theorem first_broken (h : 0x80 ≤ byte.toNat ∧ byte.toNat < 0xC2 ∨ 0xF5 ≤ byte.toNat) :
    first byte = ([.broken .start 1], none) := by
  unfold first
  grind

variable {value taken missing low high : Nat}

theorem scan_more (rest : List UInt8) (hlow : low ≤ byte.toNat) (hhigh : byte.toNat ≤ high) :
    scan (some ⟨value, taken, missing + 2, low, high⟩) (byte :: rest) =
      scan (some ⟨value * 0x40 + (byte.toNat - 0x80), taken + 1, missing + 1, 0x80, 0xBF⟩)
        rest := by
  simp only [scan, step]
  rw [if_pos ⟨hlow, hhigh⟩]
  rfl

theorem scan_last (rest : List UInt8) (hlow : low ≤ byte.toNat) (hhigh : byte.toNat ≤ high) :
    scan (some ⟨value, taken, 1, low, high⟩) (byte :: rest) =
      .char (.ofNat (value * 0x40 + (byte.toNat - 0x80))) :: scan none rest := by
  simp only [scan, step]
  rw [if_pos ⟨hlow, hhigh⟩]
  rfl

-- A character begun goes on with a byte within its bounds, or it is broken.
theorem scan_begun (bytes : List UInt8) :
    (∃ byte rest, bytes = byte :: rest ∧ low ≤ byte.toNat ∧ byte.toNat ≤ high) ∨
      ∃ defect length items,
        scan (some ⟨value, taken, missing, low, high⟩) bytes = .broken defect length :: items := by
  cases bytes with
  | nil => exact Or.inr ⟨.cut, taken, [], rfl⟩
  | cons byte rest =>
      by_cases hbounds : low ≤ byte.toNat ∧ byte.toNat ≤ high
      · exact Or.inl ⟨byte, rest, rfl, hbounds⟩
      · refine Or.inr ⟨.continuation, taken, (first byte).1 ++ scan (first byte).2 rest, ?_⟩
        simp only [scan, step, hbounds, if_false, List.cons_append]

end Step

theorem toNat_ofNat {n : Nat} (h : n.isValidChar) : (Char.ofNat n).toNat = n := by
  rw [Char.ofNat, dif_pos h]
  exact BitVec.toNat_ofNatLT ..

theorem ofNat_eq {n : Nat} {byte : UInt8} (h : n = byte.toNat) : UInt8.ofNat n = byte := by
  rw [h, UInt8.ofNat_toNat]

section Character

variable {a b c d : UInt8}

theorem encodeChar_one (ha : a.toNat < 0x80) : encodeChar (.ofNat a.toNat) = [a] := by
  simp only [encodeChar]
  rw [toNat_ofNat (Or.inl (by omega)), if_pos ha, ofNat_eq rfl]

theorem encodeChar_two (halow : 0xC2 ≤ a.toNat) (hahigh : a.toNat < 0xE0) (hblow : 0x80 ≤ b.toNat)
    (hbhigh : b.toNat ≤ 0xBF) :
    encodeChar (.ofNat ((a.toNat - 0xC0) * 0x40 + (b.toNat - 0x80))) = [a, b] := by
  simp only [encodeChar]
  rw [toNat_ofNat (Or.inl (by omega)), if_neg (by omega), if_pos (by omega)]
  simp only [List.cons.injEq, and_true]
  exact ⟨ofNat_eq (by omega), ofNat_eq (by omega)⟩

theorem encodeChar_three (halow : 0xE0 ≤ a.toNat) (hahigh : a.toNat < 0xF0)
    (hblow : (if a.toNat = 0xE0 then 0xA0 else 0x80) ≤ b.toNat)
    (hbhigh : b.toNat ≤ if a.toNat = 0xED then 0x9F else 0xBF) (hclow : 0x80 ≤ c.toNat)
    (hchigh : c.toNat ≤ 0xBF) :
    encodeChar (.ofNat (((a.toNat - 0xE0) * 0x40 + (b.toNat - 0x80)) * 0x40 + (c.toNat - 0x80))) =
      [a, b, c] := by
  have hlong : 0x80 ≤ b.toNat ∧ (a.toNat = 0xE0 → 0xA0 ≤ b.toNat) := by
    split at hblow <;> omega
  have hhalf : b.toNat ≤ 0xBF ∧ (a.toNat = 0xED → b.toNat ≤ 0x9F) := by
    split at hbhigh <;> omega
  have hvalid : (((a.toNat - 0xE0) * 0x40 + (b.toNat - 0x80)) * 0x40 +
      (c.toNat - 0x80)).isValidChar := by
    simp only [Nat.isValidChar]
    omega
  simp only [encodeChar]
  rw [toNat_ofNat hvalid, if_neg (by omega), if_neg (by omega), if_pos (by omega)]
  simp only [List.cons.injEq, and_true]
  exact ⟨ofNat_eq (by omega), ofNat_eq (by omega), ofNat_eq (by omega)⟩

theorem encodeChar_four (halow : 0xF0 ≤ a.toNat) (hahigh : a.toNat < 0xF5)
    (hblow : (if a.toNat = 0xF0 then 0x90 else 0x80) ≤ b.toNat)
    (hbhigh : b.toNat ≤ if a.toNat = 0xF4 then 0x8F else 0xBF) (hclow : 0x80 ≤ c.toNat)
    (hchigh : c.toNat ≤ 0xBF) (hdlow : 0x80 ≤ d.toNat) (hdhigh : d.toNat ≤ 0xBF) :
    encodeChar (.ofNat ((((a.toNat - 0xF0) * 0x40 + (b.toNat - 0x80)) * 0x40 +
      (c.toNat - 0x80)) * 0x40 + (d.toNat - 0x80))) = [a, b, c, d] := by
  have hlong : 0x80 ≤ b.toNat ∧ (a.toNat = 0xF0 → 0x90 ≤ b.toNat) := by
    split at hblow <;> omega
  have hgreat : b.toNat ≤ 0xBF ∧ (a.toNat = 0xF4 → b.toNat ≤ 0x8F) := by
    split at hbhigh <;> omega
  have hvalid : ((((a.toNat - 0xF0) * 0x40 + (b.toNat - 0x80)) * 0x40 +
      (c.toNat - 0x80)) * 0x40 + (d.toNat - 0x80)).isValidChar := by
    simp only [Nat.isValidChar]
    omega
  simp only [encodeChar]
  rw [toNat_ofNat hvalid, if_neg (by omega), if_neg (by omega), if_neg (by omega)]
  simp only [List.cons.injEq, and_true]
  exact ⟨ofNat_eq (by omega), ofNat_eq (by omega), ofNat_eq (by omega), ofNat_eq (by omega)⟩

-- The first byte tells how many bytes a character has. Where one of them does not continue it, the
-- bytes begin with a broken stretch.
theorem scan_cases (bytes : List UInt8) : bytes = [] ∨
    (∃ c rest, bytes = encodeChar c ++ rest ∧ scan none bytes = .char c :: scan none rest) ∨
    ∃ defect length items, scan none bytes = .broken defect length :: items := by
  cases bytes with
  | nil => exact Or.inl rfl
  | cons a rest =>
      right
      by_cases hbroken : 0x80 ≤ a.toNat ∧ a.toNat < 0xC2 ∨ 0xF5 ≤ a.toNat
      · exact Or.inr ⟨.start, 1, scan none rest, by rw [scan, step, first_broken hbroken]; rfl⟩
      by_cases hone : a.toNat < 0x80
      · refine Or.inl ⟨.ofNat a.toNat, rest, by rw [encodeChar_one hone]; rfl, ?_⟩
        rw [scan, step, first_one hone]
        rfl
      by_cases htwo : a.toNat < 0xE0
      · have hlow : 0xC2 ≤ a.toNat := by omega
        rw [scan, step, first_two hlow htwo, List.nil_append]
        obtain ⟨b, rest, rfl, hblow, hbhigh⟩ | hbroken := scan_begun rest
        · left
          refine ⟨_, rest, ?_, scan_last rest hblow hbhigh⟩
          rw [encodeChar_two hlow htwo hblow hbhigh]
          rfl
        · exact Or.inr hbroken
      by_cases hthree : a.toNat < 0xF0
      · have hlow : 0xE0 ≤ a.toNat := by omega
        rw [scan, step, first_three hlow hthree, List.nil_append]
        obtain ⟨b, rest, rfl, hblow, hbhigh⟩ | hbroken := scan_begun rest
        · rw [scan_more rest hblow hbhigh]
          obtain ⟨c, rest, rfl, hclow, hchigh⟩ | hbroken := scan_begun rest
          · left
            refine ⟨_, rest, ?_, scan_last rest hclow hchigh⟩
            rw [encodeChar_three hlow hthree hblow hbhigh hclow hchigh]
            rfl
          · exact Or.inr hbroken
        · exact Or.inr hbroken
      · have hlow : 0xF0 ≤ a.toNat := by omega
        have hfour : a.toNat < 0xF5 := by omega
        rw [scan, step, first_four hlow hfour, List.nil_append]
        obtain ⟨b, rest, rfl, hblow, hbhigh⟩ | hbroken := scan_begun rest
        · rw [scan_more rest hblow hbhigh]
          obtain ⟨c, rest, rfl, hclow, hchigh⟩ | hbroken := scan_begun rest
          · rw [scan_more rest hclow hchigh]
            obtain ⟨d, rest, rfl, hdlow, hdhigh⟩ | hbroken := scan_begun rest
            · left
              refine ⟨_, rest, ?_, scan_last rest hdlow hdhigh⟩
              rw [encodeChar_four hlow hfour hblow hbhigh hclow hchigh hdlow hdhigh]
              rfl
            · exact Or.inr hbroken
          · exact Or.inr hbroken
        · exact Or.inr hbroken

end Character

theorem scan_encodeChar (c : Char) (rest : List UInt8) :
    scan none (encodeChar c ++ rest) = .char c :: scan none rest := by
  have hvalid : c.toNat < 0xD800 ∨ 0xDFFF < c.toNat ∧ c.toNat < 0x110000 := c.valid
  have hbyte : ∀ n < 256, (UInt8.ofNat n).toNat = n := fun n hn => UInt8.toNat_ofNat_of_lt' hn
  have hchar : ∀ n, n = c.toNat →
      Item.char (.ofNat n) :: scan none rest = .char c :: scan none rest := by
    rintro _ rfl
    rw [Char.ofNat_toNat]
  simp only [encodeChar]
  split
  · have ha := hbyte c.toNat (by omega)
    rw [List.singleton_append, scan, step, first_one (by omega)]
    exact hchar _ ha
  split
  · have ha := hbyte (0xC0 + c.toNat / 0x40) (by omega)
    have hb := hbyte (0x80 + c.toNat % 0x40) (by omega)
    simp only [List.cons_append, List.nil_append]
    rw [scan, step, first_two (by omega) (by omega), List.nil_append,
      scan_last rest (by omega) (by omega)]
    exact hchar _ (by omega)
  split
  · have ha := hbyte (0xE0 + c.toNat / 0x1000) (by omega)
    have hb := hbyte (0x80 + c.toNat / 0x40 % 0x40) (by omega)
    have hc := hbyte (0x80 + c.toNat % 0x40) (by omega)
    simp only [List.cons_append, List.nil_append]
    rw [scan, step, first_three (by omega) (by omega), List.nil_append,
      scan_more _ (by split <;> omega) (by split <;> omega),
      scan_last rest (by omega) (by omega)]
    exact hchar _ (by omega)
  · have ha := hbyte (0xF0 + c.toNat / 0x40000) (by omega)
    have hb := hbyte (0x80 + c.toNat / 0x1000 % 0x40) (by omega)
    have hc := hbyte (0x80 + c.toNat / 0x40 % 0x40) (by omega)
    have hd := hbyte (0x80 + c.toNat % 0x40) (by omega)
    simp only [List.cons_append, List.nil_append]
    rw [scan, step, first_four (by omega) (by omega), List.nil_append,
      scan_more _ (by split <;> omega) (by split <;> omega),
      scan_more _ (by omega) (by omega), scan_last rest (by omega) (by omega)]
    exact hchar _ (by omega)

-- Between characters, a text's bytes are read as its characters, whatever follows them.
theorem scan_encode (text : Text) (rest : List UInt8) :
    scan none (encode text ++ rest) = text.map Item.char ++ scan none rest := by
  induction text with
  | nil => rfl
  | cons c text ih =>
      simp only [encode, List.flatMap_cons, List.append_assoc] at ih ⊢
      rw [scan_encodeChar, ih]
      rfl

theorem ofItems_map_char (position : Nat) (text : Text) :
    ofItems position (text.map .char) = .ok text := by
  induction text generalizing position with
  | nil => rfl
  | cons c rest ih => simp [ofItems, ih, Except.map]

theorem decode_encode (text : Text) : decode (encode text) = .ok text := by
  have hscan := scan_encode text []
  rw [List.append_nil, show scan none [] = [] from rfl, List.append_nil] at hscan
  rw [decode, hscan, ofItems_map_char]

theorem eq_encode_of_ofItems {position : Nat} {bytes : List UInt8} {text : Text}
    (h : ofItems position (scan none bytes) = .ok text) : bytes = encode text := by
  induction text generalizing position bytes with
  | nil =>
      obtain rfl | ⟨c, rest, _, hscan⟩ | ⟨defect, length, items, hscan⟩ := scan_cases bytes
      · rfl
      · rw [hscan, ofItems] at h
        cases hrest : ofItems (position + (encodeChar c).length) (scan none rest) <;>
          simp [hrest, Except.map] at h
      · rw [hscan, ofItems] at h
        cases h
  | cons first text ih =>
      obtain rfl | ⟨c, rest, rfl, hscan⟩ | ⟨defect, length, items, hscan⟩ := scan_cases bytes
      · cases h
      · rw [hscan, ofItems] at h
        cases hrest : ofItems (position + (encodeChar c).length) (scan none rest) with
        | error invalid => simp [hrest, Except.map] at h
        | ok read =>
            simp only [hrest, Except.map, Except.ok.injEq, List.cons.injEq] at h
            obtain ⟨rfl, rfl⟩ := h
            rw [ih hrest]
            rfl
      · rw [hscan, ofItems] at h
        cases h

-- Bytes are taken as a text exactly if they are that text's bytes.
theorem decode_eq_ok_iff {bytes : List UInt8} {text : Text} :
    decode bytes = .ok text ↔ bytes = encode text := by
  constructor
  · exact eq_encode_of_ofItems
  · rintro rfl
    exact decode_encode text

end WorkspaceImports.Utf8

import WorkspaceImports.Proofs.Text.Percent
import WorkspaceImports.Proofs.Text.Segments
import WorkspaceImports.Proofs.Text.Utf8

namespace WorkspaceImports.Percent

section Symbols

variable {c d e : Char}

theorem symbols_escape {high low : Nat} (hd : Text.hexValue? d = some high)
    (he : Text.hexValue? e = some low) (rest : Text) :
    symbols ('%' :: d :: e :: rest) = .byte (.ofNat (16 * high + low)) :: symbols rest := by
  rw [symbols]
  · exact hd
  · exact he

theorem symbols_no_escape
    (h : ∀ high low, c = '%' → Text.hexValue? d = some high → Text.hexValue? e = some low → False)
    (rest : Text) : symbols (c :: d :: e :: rest) = plain c :: symbols (d :: e :: rest) := by
  rw [symbols]
  exact h

theorem symbols_cons_of_ne (h : c ≠ '%') (rest : Text) :
    symbols (c :: rest) = plain c :: symbols rest := by
  match rest with
  | [] => rfl
  | [_] => rfl
  | _ :: _ :: rest => exact symbols_no_escape (fun _ _ hc => absurd hc h) rest

theorem symbols_eq_nil_iff {text : Text} : symbols text = [] ↔ text = [] := by
  fun_cases symbols text <;> simp

-- A slash ends an escape that is begun before it.
theorem symbols_append_slash (left right : Text) :
    symbols (left ++ '/' :: right) = symbols left ++ plain '/' :: symbols right := by
  have hdigit : Text.hexValue? '/' = none := by decide
  have hslash : symbols ('/' :: right) = plain '/' :: symbols right :=
    symbols_cons_of_ne (by decide) right
  have hone : ∀ c, symbols (c :: '/' :: right) = plain c :: plain '/' :: symbols right := by
    intro c
    rw [← hslash]
    cases right with
    | nil => rfl
    | cons d rest => exact symbols_no_escape (by simp [hdigit]) rest
  fun_induction symbols left with
  | case1 => exact hslash
  | case2 c => exact hone c
  | case3 c d =>
      refine (symbols_no_escape (by simp [hdigit]) right).trans ?_
      rw [hone d]
      rfl
  | case4 d e rest high low he hd ih =>
      refine (symbols_escape hd he (rest ++ '/' :: right)).trans ?_
      rw [ih]
      rfl
  | case5 c d e rest hescape ih =>
      refine (symbols_no_escape hescape (rest ++ '/' :: right)).trans ?_
      rw [← List.cons_append, ← List.cons_append, ih]
      rfl

theorem hexValue?_digit : ∀ n < 16, Text.hexValue? (Nat.digitChar n).toUpper = some n := by
  decide

theorem symbols_escapeByte (byte : UInt8) (rest : Text) :
    symbols (escapeByte byte ++ rest) = .byte byte :: symbols rest := by
  have hbound : byte.toNat < 256 := byte.toNat_lt
  have hbyte : 16 * (byte.toNat / 16) + byte.toNat % 16 = byte.toNat := Nat.div_add_mod ..
  have hhigh := hexValue?_digit (byte.toNat / 16) (by omega)
  have hlow := hexValue?_digit (byte.toNat % 16) (by omega)
  refine (symbols_escape hhigh hlow rest).trans ?_
  rw [hbyte, UInt8.ofNat_toNat]

theorem symbols_escapes (bytes : List UInt8) (rest : Text) :
    symbols (bytes.flatMap escapeByte ++ rest) = bytes.map .byte ++ symbols rest := by
  induction bytes with
  | nil => rfl
  | cons byte bytes ih =>
      rw [List.flatMap_cons, List.append_assoc, symbols_escapeByte, ih]
      rfl

-- A path character is an ASCII character and begins no escape.
theorem isPathChar_bounds (h : isPathChar c) : c.toNat < 0x80 ∧ c ≠ '%' := by
  have hrange : ∀ low high : Char, low ≤ c ∧ c ≤ high → '%' < low → high.toNat < 0x80 →
      c.toNat < 0x80 ∧ c ≠ '%' := by
    intro low high ⟨hlow, hhigh⟩ hpercent hascii
    have hle : c.toNat ≤ high.toNat := hhigh
    exact ⟨by omega, fun hc => absurd (hc ▸ hlow) (Char.not_le.mpr hpercent)⟩
  simp only [isPathChar, Bool.or_eq_true, Bool.and_eq_true, decide_eq_true_eq, beq_iff_eq] at h
  rcases h with (((((((h | h) | h) | rfl) | rfl) | rfl) | rfl) | rfl)
  · exact hrange 'a' 'z' h (by decide) (by decide)
  · exact hrange 'A' 'Z' h (by decide) (by decide)
  · exact hrange '0' '9' h (by decide) (by decide)
  all_goals decide

theorem symbols_encodeChar (c : Char) (rest : Text) :
    symbols (encodeChar c ++ rest) = (Utf8.encodeChar c).map .byte ++ symbols rest := by
  unfold encodeChar
  split
  · rename_i hpath
    obtain ⟨hascii, hpercent⟩ := isPathChar_bounds hpath
    rw [List.singleton_append, symbols_cons_of_ne hpercent, plain, if_pos hascii, Utf8.encodeChar]
    simp [hascii]
  · exact symbols_escapes _ rest

theorem symbols_encode (text : Text) : symbols (encode text) = (Utf8.encode text).map .byte := by
  induction text with
  | nil => rfl
  | cons c rest ih =>
      rw [encode, List.flatMap_cons, symbols_encodeChar, Utf8.encode, List.flatMap_cons,
        List.map_append]
      exact congrArg _ ih

end Symbols

section Assemble

-- Bytes without characters among them are read as they are.
theorem assemble_bytes (state : Utf8.State) (bytes : List UInt8) :
    assemble state (bytes.map .byte) = (Utf8.scan state bytes).map Utf8.Item.lenient := by
  induction bytes generalizing state with
  | nil => rfl
  | cons byte rest ih => rw [List.map_cons, assemble, ih, Utf8.scan, List.map_append]

-- The bytes that may go on with a character begun are no ASCII characters.
def AboveAscii (state : Utf8.State) : Prop := ∀ begun ∈ state, 0x80 ≤ begun.low

theorem aboveAscii_none : AboveAscii none := by simp [AboveAscii]

theorem aboveAscii_first (byte : UInt8) : AboveAscii (Utf8.first byte).2 := by
  unfold AboveAscii Utf8.first
  grind

theorem aboveAscii_step (state : Utf8.State) (byte : UInt8) :
    AboveAscii (Utf8.step state byte).2 := by
  cases state with
  | none => exact aboveAscii_first byte
  | some begun =>
      simp only [Utf8.step]
      split
      · split <;> simp [AboveAscii]
      · exact aboveAscii_first byte

-- A slash ends a character that is begun before it, as the end of the text does.
theorem assemble_slash {state : Utf8.State} (h : AboveAscii state) (right : List Symbol) :
    assemble state (plain '/' :: right) =
      (Utf8.close state).map Utf8.Item.lenient ++ '/' :: assemble none right := by
  have hplain : plain '/' = .byte 0x2F := by decide
  have hfirst : Utf8.first 0x2F = ([.char '/'], none) := by decide
  rw [hplain, assemble]
  cases state with
  | none => rw [Utf8.step, hfirst]; rfl
  | some begun =>
      have hlow : ¬begun.low ≤ 0x2F := by
        have hbegun := h begun rfl
        omega
      simp [Utf8.step, hlow, hfirst, Utf8.close, Utf8.Item.lenient]

theorem assemble_append_slash {state : Utf8.State} (h : AboveAscii state)
    (left right : List Symbol) :
    assemble state (left ++ plain '/' :: right) =
      assemble state left ++ '/' :: assemble none right := by
  induction left generalizing state with
  | nil => exact assemble_slash h right
  | cons symbol rest ih =>
      cases symbol with
      | byte byte => simp only [List.cons_append, assemble, ih (aboveAscii_step state byte),
          List.append_assoc]
      | char c => simp only [List.cons_append, assemble, ih aboveAscii_none, List.append_assoc]

theorem step_ne_nil (state : Utf8.State) (byte : UInt8) :
    (Utf8.step state byte).1 ≠ [] ∨ (Utf8.step state byte).2 ≠ none := by
  cases state with
  | none =>
      have hfirst := length_first byte
      simp only [Utf8.step]
      by_cases hitems : (Utf8.first byte).1 = []
      · right
        intro hnone
        simp [hitems, hnone, pending] at hfirst
      · exact Or.inl hitems
  | some begun =>
      simp only [Utf8.step]
      split
      · split <;> simp
      · simp

-- Whatever is read gives characters, and so does a character begun.
theorem assemble_ne_nil {state : Utf8.State} {read : List Symbol} (h : state ≠ none ∨ read ≠ []) :
    assemble state read ≠ [] := by
  induction read generalizing state with
  | nil =>
      cases state with
      | none => simp at h
      | some begun => simp [assemble, Utf8.close]
  | cons symbol rest ih =>
      cases symbol with
      | char c => simp [assemble]
      | byte byte =>
          rw [assemble]
          rcases step_ne_nil state byte with hitems | hbegun
          · simp [hitems]
          · simp [ih (Or.inl hbegun)]

end Assemble

-- What was escaped is read back.
theorem decode_encode (text : Text) : decode (encode text) = text := by
  have hscan := Utf8.scan_encode text []
  rw [List.append_nil] at hscan
  rw [decode, symbols_encode, assemble_bytes, hscan]
  simp [Utf8.scan, Utf8.close, Utf8.Item.lenient, Function.comp_def]

theorem decode_append_slash (left right : Text) :
    decode (left ++ '/' :: right) = decode left ++ '/' :: decode right := by
  rw [decode, symbols_append_slash, assemble_append_slash aboveAscii_none]
  rfl

section Encode

-- Only a slash is written as one.
theorem mem_encodeChar_slash {c : Char} (h : '/' ∈ encodeChar c) : c = '/' := by
  unfold encodeChar at h
  split at h
  · exact (List.mem_singleton.mp h).symm
  · obtain ⟨byte, -, hbyte⟩ := List.mem_flatMap.mp h
    have hdigit : ∀ n < 16, (Nat.digitChar n).toUpper ≠ '/' := by decide
    have hbound : byte.toNat < 256 := byte.toNat_lt
    have hhigh := hdigit (byte.toNat / 16) (by omega)
    have hlow := hdigit (byte.toNat % 16) (by omega)
    simp [escapeByte, hhigh.symm, hlow.symm] at hbyte

theorem notMem_encode_slash {text : Text} (h : '/' ∉ text) : '/' ∉ encode text := by
  intro hmem
  obtain ⟨c, hc, hslash⟩ := List.mem_flatMap.mp hmem
  exact h (mem_encodeChar_slash hslash ▸ hc)

theorem encode_eq_nil_iff {text : Text} : encode text = [] ↔ text = [] := by
  constructor
  · intro h
    rw [← decode_encode text, h]
    rfl
  · rintro rfl
    rfl

theorem head?_encode_slash {text : Text} (h : (encode text).head? = some '/') :
    text.head? = some '/' := by
  cases text with
  | nil => cases h
  | cons c rest =>
      have hne : encodeChar c ≠ [] := fun hnil => by
        have hone : encode [c] = [] := by simp [encode, hnil]
        cases encode_eq_nil_iff.mp hone
      obtain ⟨first, more, hchar⟩ := List.exists_cons_of_ne_nil hne
      rw [encode, List.flatMap_cons, hchar, List.cons_append, List.head?_cons] at h
      obtain rfl : first = '/' := Option.some.inj h
      have hc : c = '/' := mem_encodeChar_slash (hchar ▸ List.mem_cons_self)
      rw [hc, List.head?_cons]

theorem encode_slash (rest : Text) : encode ('/' :: rest) = '/' :: encode rest := rfl

theorem encode_join (parts : List Text) :
    encode (Text.join '/' parts) = Text.join '/' (parts.map encode) := by
  induction parts with
  | nil => rfl
  | cons part rest ih =>
      cases rest with
      | nil => simp [Text.join]
      | cons next rest =>
          rw [Text.join_cons_cons, List.map_cons, List.map_cons, Text.join_cons_cons,
            ← List.map_cons, ← ih, ← encode_slash]
          exact List.flatMap_append

-- The segments of an encoded path are the encoded segments of the path.
theorem segments_encode (path : Text) :
    Text.segments '/' (encode path) = (Text.segments '/' path).map encode := by
  have hjoin : Text.join '/' (path.splitOn '/') = path := List.intercalate_splitOn '/'
  have hsplit : (Text.join '/' ((path.splitOn '/').map encode)).splitOn '/' =
      (path.splitOn '/').map encode := by
    refine List.splitOn_intercalate '/' (fun part hpart => ?_) (by simp)
    obtain ⟨piece, hpiece, rfl⟩ := List.mem_map.mp hpart
    exact notMem_encode_slash (Text.mem_splitOn_notMem hpiece)
  rw [← encode_join, hjoin] at hsplit
  rw [Text.segments, hsplit, List.filter_map, Text.segments]
  congr 1
  refine List.filter_congr fun piece _ => ?_
  cases piece with
  | nil => rfl
  | cons c piece =>
      have hne : encode (c :: piece) ≠ [] := fun h => by cases encode_eq_nil_iff.mp h
      simp [hne]

end Encode

-- So the segments of a text that is decoded as a whole are those of its own segments, each decoded
-- by itself.
theorem segments_decode (text : Text) :
    Text.segments '/' (decode text) =
      (Text.segments '/' text).flatMap fun segment => Text.segments '/' (decode segment) := by
  have hparts : ∀ parts : List Text, Text.segments '/' (decode (Text.join '/' parts)) =
      (parts.filter (!·.isEmpty)).flatMap fun part => Text.segments '/' (decode part) := by
    intro parts
    induction parts with
    | nil => rfl
    | cons part rest ih =>
        have hpart : Text.segments '/' (decode part) =
            ([part].filter (!·.isEmpty)).flatMap fun part => Text.segments '/' (decode part) := by
          cases part with
          | nil => rfl
          | cons c part => simp
        cases rest with
        | nil => simpa [Text.join] using hpart
        | cons next rest =>
            rw [Text.join_cons_cons, decode_append_slash, Text.segments_append_cons, ih, hpart,
              ← List.flatMap_append, ← List.filter_append]
            rfl
  have hjoin : Text.join '/' (text.splitOn '/') = text := List.intercalate_splitOn '/'
  rw [Text.segments, Text.segments, ← hparts, hjoin, Text.segments]

theorem decode_eq_nil_iff {text : Text} : decode text = [] ↔ text = [] := by
  constructor
  · intro h
    rw [← symbols_eq_nil_iff]
    exact Classical.byContradiction fun hread => assemble_ne_nil (Or.inr hread) h
  · rintro rfl
    rfl

end WorkspaceImports.Percent

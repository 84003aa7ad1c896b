import WorkspaceImports.Proofs.Text.Wording
import WorkspaceImports.Text.Percent

namespace WorkspaceImports.Percent

theorem step_plain (c : Char) (h : c.toNat < 0x80) :
    Utf8.step none (.ofNat c.toNat) = ([.char c], none) := by
  have hbyte : (UInt8.ofNat c.toNat).toNat = c.toNat := by
    simp [Nat.mod_eq_of_lt (show c.toNat < 256 by omega)]
  simp only [Utf8.step, Utf8.first, hbyte, h, if_true, Char.ofNat_toNat]

-- Symbols that stand for characters as they are give these characters.
theorem assemble_plain (text : Text) : assemble none (text.map plain) = text := by
  induction text with
  | nil => rfl
  | cons c rest ih =>
      by_cases hascii : c.toNat < 0x80
      · simp only [List.map_cons, plain, hascii, if_true, assemble, step_plain c hascii, ih]
        rfl
      · simp only [List.map_cons, plain, hascii, if_false, assemble, ih]
        rfl

theorem length_symbols_le (text : Text) : (symbols text).length ≤ text.length := by
  fun_induction symbols text with
  | case1 => simp
  | case2 => simp
  | case3 => simp
  | case4 d e rest high hd low he ih =>
      simp only [List.length_cons]
      omega
  | case5 c d e rest hescape ih =>
      simp only [List.length_cons] at ih ⊢
      omega

-- An escape takes three characters for one symbol.
theorem symbols_eq_of_length (text : Text) (h : text.length ≤ (symbols text).length) :
    symbols text = text.map plain := by
  fun_induction symbols text with
  | case1 => rfl
  | case2 => rfl
  | case3 => rfl
  | case4 d e rest high hd low he ih =>
      have hle := length_symbols_le rest
      simp only [List.length_cons] at h
      omega
  | case5 c d e rest hescape ih =>
      simp only [List.length_cons] at h ih
      rw [ih (by omega)]
      rfl

-- A character begun counts for one that may still come.
def pending (state : Utf8.State) : Nat := if state.isSome then 1 else 0

theorem length_first (byte : UInt8) :
    (Utf8.first byte).1.length + pending (Utf8.first byte).2 = 1 := by
  unfold Utf8.first pending
  grind

theorem length_step_le (state : Utf8.State) (byte : UInt8) :
    (Utf8.step state byte).1.length + pending (Utf8.step state byte).2 ≤ pending state + 1 := by
  cases state with
  | none => exact Nat.le_of_eq (length_first byte)
  | some begun =>
      have hfirst := length_first byte
      simp only [Utf8.step]
      split
      · split <;> simp [pending]
      · simp only [List.length_cons]
        simp only [pending, Option.isSome_some, if_true] at hfirst ⊢
        omega

theorem length_assemble_le (state : Utf8.State) (read : List Symbol) :
    (assemble state read).length ≤ pending state + read.length := by
  induction read generalizing state with
  | nil => cases state <;> simp [assemble, Utf8.close, pending]
  | cons symbol rest ih =>
      cases symbol with
      | byte b =>
          have hstep := length_step_le state b
          have hrest := ih (Utf8.step state b).2
          simp only [assemble, List.length_append, List.length_map, List.length_cons]
          omega
      | char c =>
          have hrest := ih none
          cases state <;> simp [assemble, Utf8.close, pending] at hrest ⊢ <;> omega

theorem length_decode_le (text : Text) : (decode text).length ≤ text.length := by
  have hassemble := length_assemble_le none (symbols text)
  have hsymbols := length_symbols_le text
  simp only [pending, Option.isSome_none, Bool.false_eq_true, if_false] at hassemble
  rw [decode]
  omega

-- Decoding makes a text shorter or leaves it alone.
theorem decode_eq_self_of_length {text : Text} (h : text.length ≤ (decode text).length) :
    decode text = text := by
  have hassemble := length_assemble_le none (symbols text)
  have hsymbols : text.length ≤ (symbols text).length := by
    simp only [pending, Option.isSome_none, Bool.false_eq_true, if_false] at hassemble
    rw [decode] at h
    omega
  rw [decode, symbols_eq_of_length text hsymbols, assemble_plain]

theorem decode_eq_self_of_notMem {text : Text} (h : '%' ∉ text) : decode text = text := by
  have hsymbols : symbols text = text.map plain := by
    fun_induction symbols text with
    | case1 => rfl
    | case2 => rfl
    | case3 => rfl
    | case4 d e rest high hd low he ih => simp at h
    | case5 c d e rest hescape ih =>
        rw [ih (List.not_mem_of_not_mem_cons h)]
        rfl
  rw [decode, hsymbols, assemble_plain]

section Wordings

theorem decodeAfter_text (before written : Text) :
    decodeAfter before (Wording.text written) = Wording.text (decode (before ++ written)) := by
  induction written generalizing before with
  | nil => rw [Wording.text_nil, decodeAfter, List.append_nil]
  | cons c rest ih =>
      rw [Wording.text_cons, decodeAfter, ih, List.append_assoc, List.singleton_append]

-- A text is decoded like the wording that it is.
theorem decodeWording_text (written : Text) :
    decodeWording (Wording.text written) = Wording.text (decode written) :=
  decodeAfter_text [] written

theorem decodeAfter_of_notMem {before : Text} {wording : Wording} (hbefore : '%' ∉ before)
    (h : .char '%' ∉ wording) : decodeAfter before wording = Wording.text before ++ wording := by
  induction wording generalizing before with
  | nil => rw [decodeAfter, decode_eq_self_of_notMem hbefore, List.append_nil]
  | cons letter rest ih =>
      have hrest := List.not_mem_of_not_mem_cons h
      cases letter with
      | char c =>
          have hc : '%' ≠ c := fun hc => h (hc ▸ List.mem_cons_self)
          rw [decodeAfter, ih (by simp [hbefore, hc]) hrest]
          simp
      | half code =>
          rw [decodeAfter, decode_eq_self_of_notMem hbefore, ih (by simp) hrest,
            Wording.text_nil, List.nil_append]

theorem decodeWording_eq_self_of_notMem {wording : Wording} (h : .char '%' ∉ wording) :
    decodeWording wording = wording :=
  decodeAfter_of_notMem (by simp) h

end Wordings

end WorkspaceImports.Percent

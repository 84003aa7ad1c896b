import WorkspaceImports.Proofs.Path
import WorkspaceImports.Proofs.Text.Utf8
import WorkspaceImports.Proofs.Text.Wording

namespace WorkspaceImports

theorem Utf8.encodeChar_of_ascii {c : Char} (h : c.toNat < 0x80) :
    encodeChar c = [.ofNat c.toNat] := by
  rw [encodeChar, if_pos h]

namespace Letter

variable {letter : Letter}

theorem bytes?_ne_nil : letter.bytes? ≠ some [] := by
  cases letter with
  | char c =>
      rw [bytes?, Utf8.encodeChar]
      grind
  | half code =>
      rw [bytes?]
      split <;> simp

-- A byte below 80 begins no other character than its own one, and no half stands for it.
theorem eq_char_of_bytes? {c : Char} {rest : List UInt8} (hc : c.toNat < 0x80)
    (h : letter.bytes? = some (.ofNat c.toNat :: rest)) : letter = .char c ∧ rest = [] := by
  cases letter with
  | char d =>
      rw [bytes?, Option.some.injEq] at h
      by_cases hd : d.toNat < 0x80
      · rw [Utf8.encodeChar_of_ascii hd, List.cons.injEq] at h
        have hbyte := congrArg UInt8.toNat h.1
        simp only [UInt8.toNat_ofNat'] at hbyte
        have hsame : d = c := Char.toNat_inj.mp (by omega)
        exact ⟨congrArg Letter.char hsame, h.2.symm⟩
      · -- several bytes begin with one from C0 on
        have hvalid : d.toNat < 0xD800 ∨ 0xDFFF < d.toNat ∧ d.toNat < 0x110000 := d.valid
        have hhead : ∀ n more, UInt8.ofNat n :: more = UInt8.ofNat c.toNat :: rest →
            n % 256 = c.toNat % 256 := by
          intro n more heq
          have hbyte := congrArg UInt8.toNat (List.cons.inj heq).1
          rwa [UInt8.toNat_ofNat', UInt8.toNat_ofNat'] at hbyte
        simp only [Utf8.encodeChar, hd, if_false] at h
        split at h
        · have hbyte := hhead _ _ h
          omega
        split at h
        · have hbyte := hhead _ _ h
          omega
        · have hbyte := hhead _ _ h
          omega
  | half code =>
      rw [bytes?] at h
      split at h
      · rename_i hcode
        simp only [Option.some.injEq, List.cons.injEq] at h
        have hbyte := congrArg UInt8.toNat h.1
        simp only [UInt8.toNat_ofNat'] at hbyte
        omega
      · cases h

end Letter

namespace Wording

variable {wording : Wording}

theorem bytes?_cons_eq_some {letter : Letter} {bytes : List UInt8}
    (h : bytes? (letter :: wording) = some bytes) :
    ∃ first rest, letter.bytes? = some first ∧ wording.bytes? = some rest ∧
      bytes = first ++ rest := by
  obtain ⟨first, hfirst, hmap⟩ := Option.bind_eq_some_iff.mp h
  obtain ⟨rest, hrest, rfl⟩ := Option.map_eq_some_iff.mp hmap
  exact ⟨first, rest, hfirst, hrest, rfl⟩

theorem bytes?_text (written : Text) : (text written).bytes? = some (Utf8.encode written) := by
  induction written with
  | nil => rfl
  | cons c rest ih =>
      rw [text_cons, bytes?, Letter.bytes?, ih]
      rfl

-- A text is a name as it is.
@[simp] theorem name_text (written : Text) : (text written).name = written := by
  simp only [name, bytes?_text, Utf8.decode_encode]

theorem map_name_text (names : List Text) : (names.map text).map name = names := by
  have hname : name ∘ text = id := funext name_text
  rw [List.map_map, hname, List.map_id]

theorem filter_text_ne_dot (names : List Text) :
    (names.map text).filter (· ≠ [.char '.']) = (names.filter (· ≠ ['.'])).map text := by
  have hdot : ((fun piece : Wording => decide (piece ≠ [.char '.'])) ∘ text) =
      fun piece => decide (piece ≠ ['.']) := by
    funext piece
    exact decide_eq_decide.mpr (text_injective.ne_iff' rfl)
  rw [List.filter_map, hdot]

theorem eq_nil_of_bytes? (h : wording.bytes? = some []) : wording = [] := by
  cases wording with
  | nil => rfl
  | cons letter rest =>
      obtain ⟨first, more, hfirst, -, hnil⟩ := bytes?_cons_eq_some h
      obtain ⟨rfl, -⟩ := List.append_eq_nil_iff.mp hnil.symm
      exact absurd hfirst Letter.bytes?_ne_nil

-- The bytes of an ASCII text are those of no other wording.
theorem eq_text_of_bytes? {written : Text} (hascii : ∀ c ∈ written, c.toNat < 0x80)
    (h : wording.bytes? = some (Utf8.encode written)) : wording = text written := by
  induction written generalizing wording with
  | nil => exact eq_nil_of_bytes? h
  | cons c written ih =>
      obtain ⟨hc, hwritten⟩ := List.forall_mem_cons.mp hascii
      have hencode : Utf8.encode (c :: written) = .ofNat c.toNat :: Utf8.encode written := by
        rw [Utf8.encode, List.flatMap_cons, Utf8.encodeChar_of_ascii hc]
        rfl
      cases wording with
      | nil =>
          rw [hencode] at h
          cases h
      | cons letter rest =>
          obtain ⟨first, more, hfirst, hmore, hbytes⟩ := bytes?_cons_eq_some h
          rw [hencode] at hbytes
          cases first with
          | nil => exact absurd hfirst Letter.bytes?_ne_nil
          | cons byte first =>
              rw [List.cons_append, List.cons.injEq] at hbytes
              obtain ⟨rfl, hbytes⟩ := hbytes
              obtain ⟨rfl, rfl⟩ := Letter.eq_char_of_bytes? hc hfirst
              obtain rfl : rest = text written := ih hwritten (by rw [hmore, hbytes]; rfl)
              rfl

theorem name_eq_nil_iff : wording.name = [] ↔ wording = [] := by
  refine ⟨fun h => ?_, fun h => h ▸ rfl⟩
  unfold name at h
  split at h
  · cases h
  rename_i bytes hbytes
  split at h
  · rename_i written hdecode
    rw [h, Utf8.decode_eq_ok_iff] at hdecode
    exact eq_nil_of_bytes? (hbytes.trans (congrArg some hdecode))
  · rw [List.map_eq_nil_iff] at h
    exact eq_nil_of_bytes? (h ▸ hbytes)

-- A name of ASCII characters is that of no other wording.
theorem eq_text_of_name {written : Text} (hascii : ∀ c ∈ written, c.toNat < 0x80)
    (hslash : '/' ∉ written) (hnull : '\x00' ∉ written) (h : wording.name = written) :
    wording = text written := by
  unfold name at h
  split at h
  · exact absurd (h ▸ List.mem_cons_self) hnull
  rename_i bytes hbytes
  split at h
  · rename_i hdecode
    rw [h, Utf8.decode_eq_ok_iff] at hdecode
    exact eq_text_of_bytes? hascii (hdecode ▸ hbytes)
  · -- the characters that stand for no name are not in the text
    cases bytes with
    | nil => rw [← h, eq_nil_of_bytes? hbytes]; rfl
    | cons byte rest =>
        have hmem : (if byte = 0 then '\x00' else '/') ∈ written := h ▸ List.mem_cons_self
        split at hmem
        · exact absurd hmem hnull
        · exact absurd hmem hslash

end Wording

namespace Path

-- A text leads to where the wording that it is does.
theorem ofWording_text (written : Text) : ofWording (Wording.text written) = ofText written := by
  rw [ofWording, ofText, Wording.shown_text, Text.segments_text, Wording.filter_text_ne_dot,
    Wording.map_name_text]

theorem ofWording_segment {segment : Wording} (hne : segment ≠ []) (hslash : .char '/' ∉ segment) :
    ofWording segment = ⟨.here, ([segment].filter (· ≠ [.char '.'])).map Wording.name⟩ := by
  have hshown : '/' ∉ segment.shown := fun h => hslash ((Wording.mem_shown (by decide)).mp h)
  rw [ofWording, anchorOf_of_notMem hshown, Text.segments_of_notMem hslash hne]

end Path

end WorkspaceImports

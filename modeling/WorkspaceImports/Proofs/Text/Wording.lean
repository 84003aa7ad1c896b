import WorkspaceImports.Proofs.Text.Segments
import WorkspaceImports.Text.Wording

namespace WorkspaceImports.Wording

@[simp] theorem text_nil : text [] = [] := rfl

@[simp] theorem text_cons (c : Char) (rest : Text) : text (c :: rest) = .char c :: text rest := rfl

@[simp] theorem text_append (left right : Text) : text (left ++ right) = text left ++ text right :=
  List.map_append

@[simp] theorem text_ne_nil_iff {written : Text} : text written ≠ [] ↔ written ≠ [] := by
  simp [text]

@[simp] theorem length_text (written : Text) : (text written).length = written.length :=
  List.length_map _

-- A text is shown as it is.
@[simp] theorem shown_text (written : Text) : (text written).shown = written := by
  rw [shown, text, List.map_map]
  exact List.map_id written

@[simp] theorem shown_append (left right : Wording) :
    shown (left ++ right) = left.shown ++ right.shown :=
  List.map_append

@[simp] theorem shown_char_cons (c : Char) (rest : Wording) :
    shown (.char c :: rest) = c :: rest.shown := rfl

@[simp] theorem length_shown (wording : Wording) : wording.shown.length = wording.length :=
  List.length_map _

theorem text_injective : Function.Injective text :=
  Function.LeftInverse.injective shown_text

@[simp] theorem char_mem_text {c : Char} {written : Text} :
    .char c ∈ text written ↔ c ∈ written := by
  simp [text]

-- Besides the replacement character, what is shown is there.
theorem mem_shown {c : Char} (hc : c ≠ '\uFFFD') {wording : Wording} :
    c ∈ wording.shown ↔ .char c ∈ wording := by
  have hletter (letter : Letter) : letter.lenient = c ↔ letter = .char c := by
    cases letter with
    | char d => simp [Letter.lenient]
    | half code => simpa [Letter.lenient] using hc.symm
  simp [shown, hletter]

end WorkspaceImports.Wording

namespace WorkspaceImports.Text

-- A text is split like the wording that it is.
theorem splitOn_text (separator : Char) (written : Text) :
    (Wording.text written).splitOn (.char separator) =
      (written.splitOn separator).map Wording.text := by
  induction written with
  | nil => rfl
  | cons c rest ih =>
      obtain ⟨head, tail, hsplit⟩ := List.exists_cons_of_ne_nil (List.splitOn_ne_nil separator rest)
      rw [Wording.text_cons, List.splitOn_cons_eq_if_modifyHead,
        List.splitOn_cons_eq_if_modifyHead, ih, hsplit]
      by_cases hc : c = separator <;> simp [hc]

theorem segments_text (separator : Char) (written : Text) :
    segments (.char separator) (Wording.text written) =
      (segments separator written).map Wording.text := by
  have hkept : ((fun piece : Wording => !piece.isEmpty) ∘ Wording.text) =
      fun piece => !piece.isEmpty := by
    funext piece
    cases piece <;> rfl
  rw [segments, segments, splitOn_text, List.filter_map, hkept]

end WorkspaceImports.Text

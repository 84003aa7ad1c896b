import WorkspaceImports.Proofs.Text.Wording
import WorkspaceImports.Proofs.Uri.Segments

namespace WorkspaceImports

namespace Uri

theorem afterScheme?_suffix {text rest : Text} (h : afterScheme? text = some rest) :
    rest <:+ text := by
  cases text with
  | nil => cases h
  | cons c more =>
      rw [afterScheme?] at h
      split at h
      · split at h
        · rename_i hcolon
          cases h
          have hdrop := List.dropWhile_suffix isSchemeChar (l := more)
          rw [hcolon] at hdrop
          exact ((List.suffix_cons _ _).trans hdrop).trans (List.suffix_cons _ _)
        · cases h
      · cases h

-- The path of a URI is its end.
theorem pathPart_suffix (text : Text) : pathPart text <:+ text := by
  unfold pathPart
  split
  · exact List.suffix_rfl
  · rename_i rest hrest
    have hdrop := List.dropWhile_suffix (fun c => decide (c ≠ '/')) (l := rest)
    exact (hdrop.trans ((List.suffix_cons _ _).trans (List.suffix_cons _ _))).trans
      (afterScheme?_suffix hrest)
  · rename_i hrest
    exact afterScheme?_suffix hrest

theorem segmentPath_suffix (text : Text) : segmentPath text <:+ text := by
  unfold segmentPath
  split
  · exact List.drop_suffix _ _
  · exact pathPart_suffix text

end Uri

namespace Wording

theorem ending_text {part : Text → Text} {written : Text} (h : part written <:+ written) :
    (text written).ending part = text (part written) := by
  obtain ⟨before, hbefore⟩ := h
  have hlength : (text written).length - (part written).length = before.length := by
    rw [length_text, ← congrArg List.length hbefore]
    simp
  have htext : text written = text before ++ text (part written) := by rw [← text_append, hbefore]
  rw [ending, shown_text, hlength, htext, ← length_text before, List.drop_left]

-- A text is taken apart like the wording that it is.
theorem scheme_text (written : Text) : (text written).scheme = (Uri.parse written).scheme := by
  rw [scheme, shown_text, Uri.parse]

theorem segments_text (written : Text) :
    (text written).segments = (Uri.parse written).segments.map text := by
  rw [segments, ending_text (Uri.segmentPath_suffix written), Text.segments_text, Uri.parse]

section Workspace

variable (path : Wording)

theorem scheme_workspace :
    scheme (text Scheme.workspace.opening ++ .char '/' :: path) = .workspace := by
  rw [scheme, shown_append, shown_text, shown_char_cons, Scheme.ofText_workspace]

-- After the word "resource" come the segments of the path behind it.
theorem segments_workspace :
    segments (text Scheme.workspace.opening ++ .char '/' :: path) =
      text "resource".toList :: Text.segments (.char '/') path := by
  have hpath : Uri.segmentPath (Scheme.workspace.opening ++ '/' :: path.shown) =
      '/' :: ("resource".toList ++ '/' :: path.shown) := by
    rw [Uri.segmentPath, Scheme.ofText_workspace]
    rfl
  have hending : ending Uri.segmentPath (text Scheme.workspace.opening ++ .char '/' :: path) =
      .char '/' :: (text "resource".toList ++ .char '/' :: path) := by
    have hopening : Scheme.workspace.opening.length = 18 := by decide +kernel
    have hresource : "resource".toList.length = 8 := by decide +kernel
    have hlength : (text Scheme.workspace.opening ++ .char '/' :: path).length -
        ('/' :: ("resource".toList ++ '/' :: path.shown)).length = 9 := by
      simp only [List.length_append, List.length_cons, length_text, length_shown, hopening,
        hresource]
      omega
    rw [ending, shown_append, shown_text, shown_char_cons, hpath, hlength]
    rfl
  have hword : Text.segments (.char '/') (text "resource".toList) = [text "resource".toList] := by
    decide +kernel
  rw [segments, hending, Text.segments_cons_separator, Text.segments_append_cons, hword]
  rfl

end Workspace

end Wording

end WorkspaceImports

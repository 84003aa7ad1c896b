import WorkspaceImports.Proofs.Text.Segments
import WorkspaceImports.Uri.Basic

namespace WorkspaceImports

theorem Scheme.ofText_workspace (path : Text) :
    Scheme.ofText (Scheme.workspace.opening ++ '/' :: path) = .workspace := by
  have hprefix : (Scheme.workspace.opening ++ ['/']).isPrefixOf
      (Scheme.workspace.opening ++ '/' :: path) := by
    rw [List.isPrefixOf_iff_prefix]
    exact ⟨path, by simp⟩
  rw [Scheme.ofText, if_pos (Or.inr hprefix)]

-- After the word "resource" come the segments of the path behind it.
theorem Uri.parse_workspace (path : Text) :
    Uri.parse (Scheme.workspace.opening ++ '/' :: path) =
      ⟨Scheme.workspace.opening ++ '/' :: path, .workspace,
        "resource".toList :: Text.segments '/' path⟩ := by
  have hpath : Uri.segmentPath (Scheme.workspace.opening ++ '/' :: path) =
      '/' :: ("resource".toList ++ '/' :: path) := by
    rw [Uri.segmentPath, Scheme.ofText_workspace]
    rfl
  have hword : Text.segments '/' "resource".toList = ["resource".toList] := by decide +kernel
  rw [Uri.parse, Scheme.ofText_workspace, hpath, Text.segments_cons_separator,
    Text.segments_append_cons, hword]
  rfl

theorem Uri.project?_eq_some_iff {uri : Uri} {project : Text} :
    uri.project? = some project ↔
      uri.scheme = .workspace ∧ 3 ≤ uri.segments.length ∧ uri.segments[1]? = some project := by
  unfold Uri.project?
  constructor
  · intro h
    split at h
    · rename_i hscheme hsegments
      exact ⟨hscheme, by simp [hsegments], by rw [hsegments]; exact h⟩
    · cases h
  · rintro ⟨hscheme, hlong, hproject⟩
    match hsegments : uri.segments, hlong with
    | _ :: name :: _ :: _, _ =>
        rw [hsegments] at hproject
        rw [hscheme]
        exact hproject

-- The project that a URI names is one segment.
theorem Uri.notMem_of_project? {text project : Text}
    (h : (Uri.parse text).project? = some project) : project ≠ [] ∧ '/' ∉ project :=
  Text.mem_segments (List.mem_of_getElem? (Uri.project?_eq_some_iff.mp h).2.2)

end WorkspaceImports

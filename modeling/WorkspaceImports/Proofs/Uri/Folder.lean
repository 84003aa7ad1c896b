import WorkspaceImports.Proofs.Uri.Canonical

namespace WorkspaceImports

-- What the segments of a scheme's URIs begin with that is no part of the way to a file.
def Scheme.marker : Scheme → List Text
  | .workspace => ["resource".toList]
  | _ => []

section Inner

variable {segments : List Text}

theorem innerSegments_of_short (h : segments.length < 2) : innerSegments segments = [] :=
  if_pos h

-- Two segments or more are a first one, a last one and the inner ones between them.
theorem exists_around_innerSegments (h : 2 ≤ segments.length) :
    ∃ first last, segments = first :: (innerSegments segments ++ [last]) := by
  match segments, h with
  | first :: second :: rest, _ =>
      have hrest : second :: rest ≠ [] := List.cons_ne_nil second rest
      refine ⟨first, (second :: rest).getLast hrest, ?_⟩
      rw [innerSegments_eq, List.tail_cons, List.dropLast_concat_getLast hrest]

end Inner

namespace Uri

variable {uri : Uri}

theorem folderSegments_of_workspace (h : uri.scheme = .workspace) :
    uri.folderSegments = uri.segments.tail.dropLast := by
  rw [folderSegments, h]

theorem folderSegments_of_ne_workspace (h : uri.scheme ≠ .workspace) :
    uri.folderSegments = uri.segments.dropLast := by
  rw [folderSegments]
  split
  · exact absurd ‹uri.scheme = .workspace› h
  · rfl

-- A way without its last segment, which has to be there.
def withoutLast? : List Text → Option (List Text)
  | [] => none
  | segment :: rest => some (segment :: rest).dropLast

-- The folder found step by step: first the marker is taken away and then the name of the file.
-- Nothing can be taken from where nothing is left, so the steps look before they take.
def strippedSegments? (uri : Uri) : Option (List Text) :=
  if uri.segments = [] then some []
  else do
    let way ← if uri.scheme = .workspace then uri.segments.tail? else some uri.segments
    if way = [] then some [] else withoutLast? way

theorem withoutLast?_of_ne_nil {way : List Text} (h : way ≠ []) :
    withoutLast? way = some way.dropLast := by
  obtain ⟨segment, rest, rfl⟩ := List.exists_cons_of_ne_nil h
  rfl

-- The steps always find a folder, for a URI whose parts do not fit as well.
theorem strippedSegments?_eq (uri : Uri) : uri.strippedSegments? = some uri.folderSegments := by
  have hlast (way : List Text) :
      (if way = [] then some [] else withoutLast? way) = some way.dropLast := by
    by_cases hway : way = []
    · rw [if_pos hway, hway, List.dropLast_nil]
    · rw [if_neg hway, withoutLast?_of_ne_nil hway]
  by_cases hscheme : uri.scheme = .workspace
  · rw [strippedSegments?, folderSegments_of_workspace hscheme]
    cases uri.segments with
    | nil => rfl
    | cons marker way => simp [hscheme, hlast]
  · rw [strippedSegments?, folderSegments_of_ne_workspace hscheme]
    cases uri.segments with
    | nil => rfl
    | cons segment rest => simp [hscheme, hlast]

theorem folderSegments_of_short (h : uri.segments.length < 2) : uri.folderSegments = [] := by
  apply List.eq_nil_of_length_eq_zero
  by_cases hscheme : uri.scheme = .workspace
  · rw [folderSegments_of_workspace hscheme, List.length_dropLast, List.length_tail]
    omega
  · rw [folderSegments_of_ne_workspace hscheme, List.length_dropLast]
    omega

-- The segments are the marker of the scheme and then the way to the file.
theorem exists_way_of_admits (h : uri.scheme.Admits uri.segments) :
    ∃ way, uri.segments = uri.scheme.marker ++ way ∧ uri.folderSegments = way.dropLast := by
  cases hscheme : uri.scheme with
  | workspace =>
      obtain ⟨way, hway⟩ := List.head?_eq_some_iff.mp (h.2 hscheme)
      exact ⟨way, hway, by rw [folderSegments_of_workspace hscheme, hway, List.tail_cons]⟩
  | _ => exact ⟨uri.segments, rfl, folderSegments_of_ne_workspace (by simp [hscheme])⟩

-- A way ends in the name of the file, which is all of it that is not the folder.
theorem exists_file_of_admits (h : uri.scheme.Admits uri.segments) :
    ∃ file : Option Text, uri.segments = uri.scheme.marker ++ uri.folderSegments ++ file.toList ∧
      (file = none → uri.folderSegments = []) := by
  obtain ⟨way, hsegments, hfolder⟩ := exists_way_of_admits h
  rcases List.eq_nil_or_concat way with rfl | ⟨folder, name, rfl⟩
  · exact ⟨none, by simpa [hfolder] using hsegments, fun _ => hfolder⟩
  · refine ⟨some name, ?_, by simp⟩
    rw [hsegments, hfolder, List.concat_eq_append, List.dropLast_concat, List.append_assoc,
      Option.toList_some]

-- The segments of a text are the marker of its scheme, those of the folder and the name of the
-- file, and a URI that names no file has no folder. The inner segments, from which imports are
-- looked for, leave out the first segment in every scheme. So they are the folder's in the
-- workspace, where the first segment is the marker, and elsewhere those below the folder's first.
theorem folderSegments_inner (text : Text) :
    let uri := parse text
    let inner := innerSegments uri.segments
    uri.strippedSegments? = some uri.folderSegments ∧
    (∃ file : Option Text,
      uri.segments = uri.scheme.marker ++ uri.folderSegments ++ file.toList ∧
      (file = none → uri.folderSegments = [])) ∧
    (uri.scheme = .workspace → uri.folderSegments = inner) ∧
    (uri.scheme ≠ .workspace → 2 ≤ uri.segments.length →
      ∃ first, uri.segments.head? = some first ∧ uri.folderSegments = first :: inner) ∧
    (uri.segments.length < 2 → uri.folderSegments = [] ∧ inner = []) := by
  intro uri inner
  have hworkspace : uri.scheme = .workspace → uri.folderSegments = inner := by
    intro hscheme
    rw [folderSegments_of_workspace hscheme, ← innerSegments_eq]
  refine ⟨uri.strippedSegments?_eq, exists_file_of_admits (admits_parse text), hworkspace, ?_, ?_⟩
  · intro hscheme hlong
    obtain ⟨first, last, hsegments⟩ := exists_around_innerSegments hlong
    refine ⟨first, by rw [hsegments, List.head?_cons], ?_⟩
    calc uri.folderSegments = uri.segments.dropLast := folderSegments_of_ne_workspace hscheme
      _ = (first :: inner ++ [last]).dropLast := congrArg List.dropLast hsegments
      _ = first :: inner := List.dropLast_concat
  · exact fun hshort => ⟨folderSegments_of_short hshort, innerSegments_of_short hshort⟩

-- A text that is the marker alone names neither a folder nor a file.
example :
    (parse "platform:/resource/".toList).folderSegments = [] ∧
    (parse "platform:/resource//p/src/a.proto".toList).folderSegments =
      ["p".toList, "src".toList] ∧
    (parse "file://host/p/src/a.proto".toList).folderSegments = ["p".toList, "src".toList] ∧
    innerSegments (parse "file://host/p/src/a.proto".toList).segments = ["src".toList] := by
  decide +kernel

end Uri

end WorkspaceImports

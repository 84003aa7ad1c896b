import WorkspaceImports.Proofs.Import.Directory
import WorkspaceImports.Workspace

namespace WorkspaceImports

namespace Scheme

-- The lists of segments that texts of a scheme have. A workspace URI keeps the word "resource".
def Admits (scheme : Scheme) (segments : List Text) : Prop :=
  (∀ segment ∈ segments, segment ≠ [] ∧ '/' ∉ segment) ∧
    (scheme = .workspace → segments.head? = some "resource".toList)

theorem ofText_eq_workspace_iff {text : Text} :
    ofText text = .workspace ↔
      text = workspace.opening ∨ ∃ path, text = workspace.opening ++ '/' :: path := by
  constructor
  · intro h
    unfold ofText at h
    split at h
    · rename_i hopening
      refine hopening.imp_right fun hprefix => ?_
      obtain ⟨path, rfl⟩ := List.isPrefixOf_iff_prefix.mp hprefix
      exact ⟨path, by rw [List.append_assoc, List.singleton_append]⟩
    · split at h <;> cases h
  · rintro (rfl | ⟨path, rfl⟩)
    · decide
    · exact ofText_workspace path

theorem ofText_of_head? {text : Text} {c : Char} (h : text.head? = some c) (hc : c ≠ 'p') :
    ofText text = if file.opening.isPrefixOf text then file else unknown := by
  rw [ofText, if_neg]
  rintro (rfl | hprefix)
  · exact hc (Option.some.inj h).symm
  · obtain ⟨path, rfl⟩ := List.isPrefixOf_iff_prefix.mp hprefix
    exact hc (Option.some.inj h).symm

theorem ofText_file (path : Text) : ofText (file.opening ++ path) = .file := by
  have hhead : (file.opening ++ path).head? = some 'f' := rfl
  rw [ofText_of_head? hhead (by decide)]
  exact if_pos (List.isPrefixOf_iff_prefix.mpr (List.prefix_append _ _))

theorem ofText_slash (path : Text) : ofText ('/' :: path) = .unknown := by
  rw [ofText_of_head? rfl (by decide)]
  refine if_neg fun hprefix => ?_
  obtain ⟨rest, hrest⟩ := List.isPrefixOf_iff_prefix.mp hprefix
  have hhead : (file.opening ++ rest).head? = some '/' := congrArg List.head? hrest
  cases hhead

end Scheme

namespace Text

variable {separator : Char}

-- Joined names do not begin with the separator.
theorem head?_join_ne {parts : List Text} (h : ∀ part ∈ parts, part ≠ [] ∧ separator ∉ part) :
    (join separator parts).head? ≠ some separator := by
  match parts with
  | [] => simp [join]
  | part :: rest =>
      obtain ⟨hne, hsep⟩ := h part List.mem_cons_self
      obtain ⟨c, more, rfl⟩ := List.exists_cons_of_ne_nil hne
      have hc : c ≠ separator := fun hc => hsep (hc ▸ List.mem_cons_self)
      cases rest with
      | nil => simpa [join] using hc
      | cons next rest =>
          rw [join_cons_cons]
          simpa using hc

end Text

namespace Uri

theorem parse_opening : parse Scheme.workspace.opening =
    ⟨Scheme.workspace.opening, .workspace, ["resource".toList]⟩ := by
  decide +kernel

theorem admits_parse (text : Text) : (parse text).scheme.Admits (parse text).segments := by
  refine ⟨fun segment hmem => Text.mem_segments hmem, fun hscheme => ?_⟩
  rcases Scheme.ofText_eq_workspace_iff.mp hscheme with rfl | ⟨path, rfl⟩
  · rw [parse_opening]
    rfl
  · rw [parse_workspace]
    rfl

theorem pathPart_slash (path : Text) : pathPart ('/' :: path) = '/' :: path := by
  have hafter : afterScheme? ('/' :: path) = none := rfl
  rw [pathPart, hafter]

-- With one slash after the name of the scheme there is no authority.
theorem pathPart_file {path : Text} (h : path.head? ≠ some '/') :
    pathPart (Scheme.file.opening ++ '/' :: path) = '/' :: path := by
  have hafter : afterScheme? (Scheme.file.opening ++ '/' :: path) = some ('/' :: path) := rfl
  rw [pathPart, hafter]
  match path, h with
  | [], _ => rfl
  | c :: rest, h =>
      have hc : c ≠ '/' := by simpa using h
      simp [hc]

-- The text that segments are written as is read back as these segments.
theorem parse_write {scheme : Scheme} {segments : List Text} (h : scheme.Admits segments) :
    parse (write scheme segments) = ⟨write scheme segments, scheme, segments⟩ := by
  obtain ⟨hparts, hresource⟩ := h
  have hjoin : Text.segments '/' (Text.join '/' segments) = segments :=
    Text.segments_join segments (fun part hmem => (hparts part hmem).1)
      fun part hmem => (hparts part hmem).2
  cases scheme with
  | file =>
      have hwrite : write .file segments =
          Scheme.file.opening ++ '/' :: Text.join '/' segments := rfl
      rw [hwrite, parse, segmentPath, Scheme.ofText_file, pathPart_file (Text.head?_join_ne hparts),
        Text.segments_cons_separator, hjoin]
  | unknown =>
      have hwrite : write .unknown segments = '/' :: Text.join '/' segments := rfl
      rw [hwrite, parse, segmentPath, Scheme.ofText_slash, pathPart_slash,
        Text.segments_cons_separator, hjoin]
  | workspace =>
      obtain ⟨rest, rfl⟩ := List.head?_eq_some_iff.mp (hresource rfl)
      cases rest with
      | nil => exact parse_opening
      | cons next rest =>
          have hwrite : write .workspace ("resource".toList :: next :: rest) =
              Scheme.workspace.opening ++ '/' :: Text.join '/' (next :: rest) := by
            have hopening :
                "platform:/".toList ++ "resource".toList = Scheme.workspace.opening := by
              decide +kernel
            rw [← hopening, List.append_assoc, ← Text.join_cons_cons]
            rfl
          rw [hwrite, parse_workspace, Text.segments_join]
          · exact fun part hmem => (hparts part (List.mem_cons_of_mem _ hmem)).1
          · exact fun part hmem => (hparts part (List.mem_cons_of_mem _ hmem)).2

theorem parse_canonical (text : Text) :
    parse (canonical text) = ⟨canonical text, (parse text).scheme, (parse text).segments⟩ :=
  parse_write (admits_parse text)

end Uri

-- Only the log of a resource that is outside shows what it is called.
theorem Workspace.inside?_value_congr (workspace : Workspace) (wording other : Wording)
    (target : Except Disk.Failure Target) :
    (workspace.inside? wording target).value = (workspace.inside? other target).value := by
  rcases target with failure | (_ | _ | path) <;> rfl

section Alike

variable {uri other : Uri} (hscheme : uri.scheme = other.scheme)
  (hsegments : uri.segments = other.segments)

include hscheme hsegments

theorem Uri.folderSegments_congr : uri.folderSegments = other.folderSegments := by
  rw [Uri.folderSegments, Uri.folderSegments, hscheme, hsegments]

theorem Uri.project?_congr : uri.project? = other.project? := by
  rw [Uri.project?, Uri.project?, hscheme, hsegments]

theorem Workspace.target_congr (workspace : Workspace) (disk : Disk) :
    workspace.target disk uri = workspace.target disk other := by
  rw [Workspace.target, Workspace.target, hscheme, hsegments]

theorem Workspace.file?_value_congr (workspace : Workspace) (disk : Disk) :
    (workspace.file? disk uri).value = (workspace.file? disk other).value := by
  rw [Workspace.file?, workspace.target_congr hscheme hsegments disk]
  exact workspace.inside?_value_congr _ _ _

theorem Workspace.holds_value_congr (workspace : Workspace) (disk : Disk) :
    (workspace.holds disk uri).value = (workspace.holds disk other).value := by
  have hfile := workspace.file?_value_congr hscheme hsegments disk
  unfold Workspace.holds
  generalize workspace.file? disk uri = first at hfile ⊢
  generalize workspace.file? disk other = second at hfile ⊢
  obtain ⟨found, log⟩ := first
  obtain ⟨_, more⟩ := second
  cases hfile
  rcases found with failure | (_ | path) <;> rfl

end Alike

-- Parsing takes a text to a scheme and segments that it admits, and every such pair is the one of
-- the text that it is written as. So each text has a canonical one with the same scheme and
-- segments, which is its own canonical text, and nothing that is asked about a URI tells the two
-- apart: its folder, its project, what its imports are resolved to, and the file in a workspace.
theorem Uri.parse_canonical_alike (text : Text) :
    let uri := parse text
    let canon := canonical text
    (∀ segment ∈ uri.segments, segment ≠ [] ∧ '/' ∉ segment) ∧
    (uri.scheme = .workspace → uri.segments.head? = some "resource".toList) ∧
    (parse canon).scheme = uri.scheme ∧ (parse canon).segments = uri.segments ∧
    canonical canon = canon ∧
    (∀ (scheme : Scheme) (segments : List Text),
      (∀ segment ∈ segments, segment ≠ [] ∧ '/' ∉ segment) →
      (scheme = .workspace → segments.head? = some "resource".toList) →
        (parse (write scheme segments)).scheme = scheme ∧
        (parse (write scheme segments)).segments = segments) ∧
    (parse canon).folderSegments = uri.folderSegments ∧
    (parse canon).scheme.opening = uri.scheme.opening ∧
    (parse canon).project? = uri.project? ∧
    (∀ disk check configuration written,
      Import.resolve disk check configuration (parse canon) written =
        Import.resolve disk check configuration uri written) ∧
    ∀ (workspace : Workspace) (disk : Disk),
      (workspace.file? disk (parse canon)).value = (workspace.file? disk uri).value ∧
      (workspace.holds disk (parse canon)).value = (workspace.holds disk uri).value := by
  intro uri canon
  obtain ⟨hparts, hresource⟩ := admits_parse text
  have hscheme : (parse canon).scheme = uri.scheme := by rw [parse_canonical]
  have hsegments : (parse canon).segments = uri.segments := by rw [parse_canonical]
  refine ⟨hparts, hresource, hscheme, hsegments, ?_, ?_, folderSegments_congr hscheme hsegments,
    congrArg Scheme.opening hscheme, project?_congr hscheme hsegments, ?_, ?_⟩
  · rw [canonical, hscheme, hsegments]
    rfl
  · intro scheme segments hparts hresource
    rw [parse_write ⟨hparts, hresource⟩]
    exact ⟨rfl, rfl⟩
  · intro disk check configuration written
    exact Import.resolve_congr_owner disk check configuration written
      (congrArg innerSegments hsegments)
  · intro workspace disk
    exact ⟨workspace.file?_value_congr hscheme hsegments disk,
      workspace.holds_value_congr hscheme hsegments disk⟩

end WorkspaceImports

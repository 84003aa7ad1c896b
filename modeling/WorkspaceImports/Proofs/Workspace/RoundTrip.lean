import WorkspaceImports.Proofs.Disk.Settled
import WorkspaceImports.Proofs.Text.Percent
import WorkspaceImports.Proofs.Workspace.Confinement

namespace WorkspaceImports

namespace Workspace

variable {workspace : Workspace} {disk : Disk}

open Text (volume)

theorem volume_pathOf_le (workspace : Workspace) (segments : List Text) :
    volume (workspace.pathOf segments).names ≤
      volume workspace.root.names + volume (segments.map Percent.decode) := by
  induction segments generalizing workspace with
  | nil => simp [pathOf]
  | cons segment rest ih =>
      have hrest := ih ⟨workspace.root.join (Path.ofText (Percent.decode segment))⟩
      have hjoin := workspace.root.volume_join_le (Path.ofText (Percent.decode segment))
      have hsegment := Path.volume_ofText_le (Percent.decode segment)
      rw [pathOf_cons]
      simp only [List.map_cons, Text.volume_cons] at hrest ⊢
      omega

theorem volume_map_decode_le (names : List Text) :
    volume (names.map Percent.decode) ≤ volume names := by
  induction names with
  | nil => simp
  | cons name rest ih =>
      have hname := Percent.length_decode_le name
      simp only [List.map_cons, Text.volume_cons]
      omega

-- If decoding takes nothing away from several names, it changes none of them.
theorem decode_eq_self_of_volume {names : List Text}
    (h : volume names ≤ volume (names.map Percent.decode)) :
    ∀ name ∈ names, Percent.decode name = name := by
  induction names with
  | nil => simp
  | cons name rest ih =>
      have hname := Percent.length_decode_le name
      have hrest := volume_map_decode_le rest
      simp only [List.map_cons, Text.volume_cons] at h
      intro other hmem
      rcases List.mem_cons.mp hmem with rfl | hmem
      · exact Percent.decode_eq_self_of_length (by omega)
      · exact ih (by omega) other hmem

-- Segments that stand for themselves are the names below the root.
theorem pathOf_names (workspace : Workspace) {names : List Text}
    (hnames : ∀ name ∈ names, Disk.IsName name ∧ '/' ∉ name)
    (hdecode : ∀ name ∈ names, Percent.decode name = name) :
    workspace.pathOf names = ⟨workspace.root.anchor, workspace.root.names ++ names⟩ := by
  have hpath := workspace.pathOf_undecoded
    (fun name hmem => ⟨(hnames name hmem).1.ne_nil, (hnames name hmem).2⟩) hdecode
  have hdot : names.filter (· ≠ ['.']) = names :=
    List.filter_eq_self.mpr fun name hmem => by simpa using (hnames name hmem).1.ne_dot
  rwa [hdot] at hpath

theorem holds_of_file? {uri : Uri} {path : Path}
    (h : (workspace.file? disk uri).value = .ok (some path)) :
    (workspace.holds disk uri).value = disk.isFile? path := by
  unfold holds
  generalize workspace.file? disk uri = found at h ⊢
  obtain ⟨value, log⟩ := found
  subst h
  rfl

theorem uri?_eq_some {path resolved : Path} {name : Text} {names : List Text}
    (hresolve : disk.resolve path = .ok resolved)
    (hbelow : workspace.root.below? resolved = some (name :: names)) :
    workspace.uri? disk path =
      .ok (some (Scheme.workspace.opening ++ '/' :: Text.join '/' (name :: names))) := by
  simp only [uri?, hresolve, hbelow]

theorem uri?_eq_some_iff {path : Path} {text : Text} :
    workspace.uri? disk path = .ok (some text) ↔
      ∃ resolved name names, disk.resolve path = .ok resolved ∧
        workspace.root.below? resolved = some (name :: names) ∧
        text = Scheme.workspace.opening ++ '/' :: Text.join '/' (name :: names) := by
  constructor
  · intro h
    unfold uri? at h
    split at h
    · cases h
    rename_i resolved hresolve
    split at h
    · rename_i name names hbelow
      cases h
      exact ⟨resolved, name, names, hresolve, hbelow, rfl⟩
    · cases h
  · rintro ⟨resolved, name, names, hresolve, hbelow, rfl⟩
    exact uri?_eq_some hresolve hbelow

theorem uri?_eq_none_iff {path : Path} :
    workspace.uri? disk path = .ok none ↔
      ∃ resolved, disk.resolve path = .ok resolved ∧
        ∀ name names, workspace.root.below? resolved ≠ some (name :: names) := by
  unfold uri?
  constructor
  · intro h
    split at h
    · cases h
    rename_i resolved hresolve
    split at h
    · cases h
    rename_i hbelow
    exact ⟨resolved, hresolve, hbelow⟩
  · rintro ⟨resolved, hresolve, hbelow⟩
    simp only [hresolve]

theorem parse_uri {names : List Text} (hnames : ∀ name ∈ names, Disk.IsName name ∧ '/' ∉ name) :
    Uri.parse (Scheme.workspace.opening ++ '/' :: Text.join '/' names) =
      ⟨Scheme.workspace.opening ++ '/' :: Text.join '/' names, .workspace,
        "resource".toList :: names⟩ := by
  rw [Uri.parse_workspace, Text.segments_join names (fun name hmem => (hnames name hmem).1.ne_nil)
    (fun name hmem => (hnames name hmem).2)]

-- Where no links are, the file of a path's URI is the path only if decoding changes no name. What
-- is resolved has fewer characters otherwise.
theorem decode_eq_self_of_file? (hlinks : ∀ place, disk.link? place = none)
    {resolved : Path} {names : List Text} {text word : Text}
    (hanchor : workspace.root.anchor ≠ .here)
    (hresolved : resolved.names = workspace.root.names ++ names)
    (hfile : (workspace.file? disk ⟨text, .workspace, word :: names⟩).value = .ok (some resolved)) :
    ∀ name ∈ names, Percent.decode name = name := by
  obtain ⟨_, _, hresolve, _⟩ := file?_eq_some_iff.mp hfile
  have hlexical := Disk.resolution_lexical hlinks (workspace.pathOf_anchor hanchor names)
  obtain ⟨⟨met, way, harrived, rfl⟩ | ⟨circle, hcircled, _⟩, _⟩ :=
    Disk.resolve_eq_ok_iff.mp hresolve
  · simp only [List.tail_cons] at harrived
    rw [hlexical] at harrived
    split at harrived
    · cases harrived
    · cases harrived
      have hcollapse := Path.volume_collapse_le [] (Disk.counted (workspace.pathOf names).names)
      have hcounted := Text.volume_filter_le (fun piece => piece ≠ [] ∧ piece ≠ ['.'])
        (workspace.pathOf names).names
      have hpathOf := workspace.volume_pathOf_le names
      have hvolume := congrArg volume hresolved
      simp only [Disk.Way.place, Text.volume_append] at hvolume
      simp only [Disk.counted, Text.volume_nil] at hcollapse hvolume
      exact decode_eq_self_of_volume (by omega)
  · simp only [List.tail_cons] at hcircled
    rw [hlexical] at hcircled
    split at hcircled <;> cases hcircled

-- The URI of a path below the root leads back to what the path is resolved to if no name is
-- changed when it is decoded, and where no links are only then. The resolution has to meet no
-- circle, and a way that still starts at the working folder a spelling that the system takes.
theorem file?_of_uri? {text : Text} {met : Disk.Met} {way : Disk.Way} {resolved : Path}
    {names : List Text} (harrived : disk.resolution (Path.ofText text) = .arrived met way)
    (hresolve : disk.resolve (Path.ofText text) = .ok resolved)
    (hbelow : workspace.root.below? resolved = some names) (hstrict : names ≠ [])
    (hhere : way.origin ≠ .root →
      disk.Grounded ∧ Utf8.size way.path.text < Disk.pathLimit) :
    ∃ uri, workspace.uri? disk (Path.ofText text) = .ok (some uri) ∧
      ((∀ name ∈ names, Percent.decode name = name) →
        (workspace.file? disk (Uri.parse uri)).value = .ok (some resolved) ∧
        (workspace.holds disk (Uri.parse uri)).value = disk.isFile? resolved) ∧
      ((∀ place, disk.link? place = none) →
        (workspace.file? disk (Uri.parse uri)).value = .ok (some resolved) →
        ∀ name ∈ names, Percent.decode name = name) := by
  have hsettled :=
    Disk.settled_of_arrived (fun name hmem => (Path.mem_ofText hmem).2.2) harrived hhere
  obtain ⟨houtcome, hnull, hfind⟩ := Disk.resolve_eq_ok_iff.mp hresolve
  have hplace : resolved = ⟨.root, way.place disk⟩ := by
    rcases houtcome with ⟨met', way', hway, rfl⟩ | ⟨circle, hcircled, _⟩
    · rw [harrived] at hway
      cases hway
      rfl
    · rw [harrived] at hcircled
      cases hcircled
  rw [← hplace] at hsettled
  obtain ⟨hanchor, hpath⟩ := Path.eq_append_of_below? hbelow
  have hnames : ∀ name ∈ names, Disk.IsName name ∧ '/' ∉ name := by
    intro name hmem
    exact hsettled.names name (by rw [hpath]; exact List.mem_append_right _ hmem)
  cases names with
  | nil => exact absurd rfl hstrict
  | cons name rest =>
      refine ⟨_, uri?_eq_some hresolve hbelow, ?_, ?_⟩
      · intro hdecode
        have hpathOf : workspace.pathOf (name :: rest) = resolved := by
          rw [workspace.pathOf_names hnames hdecode, hanchor, ← hpath]
        have hfile : (workspace.file? disk (Uri.parse
            (Scheme.workspace.opening ++ '/' :: Text.join '/' (name :: rest)))).value =
              .ok (some resolved) := by
          rw [parse_uri hnames, file?_value, hpathOf, hsettled.resolve_eq_self hfind, Except.map,
            if_pos (by simp [hbelow])]
        exact ⟨hfile, holds_of_file? hfile⟩
      · intro hlinks hfile
        rw [parse_uri hnames] at hfile
        have hroot : workspace.root.anchor ≠ .here := by
          rw [hanchor, hsettled.anchor]
          simp
        exact decode_eq_self_of_file? hlinks hroot hpath hfile

-- A working folder that holds a workspace and a link to the one project in it.
private def projectDisk : Disk := {
  entries := [("home".toList, .folder [
    ("in".toList, .link "ws/p".toList),
    ("ws".toList, .folder [("p".toList, .folder [
      ("ü 50%.proto".toList, .file []),
      ("%41.proto".toList, .file [])])])])]
  here := ["home".toList] }

private def projectWorkspace : Workspace := ⟨⟨.root, ["home".toList, "ws".toList]⟩⟩

private theorem projectDisk_grounded : projectDisk.Grounded := by
  refine ⟨by decide +kernel, ?_⟩
  intro name hmem
  obtain rfl := List.mem_singleton.mp hmem
  exact ⟨⟨by decide, by decide, by decide, by decide⟩, by decide⟩

-- A name with a blank, a letter beyond the ASCII ones and a percent sign that starts no escape,
-- reached by a link and a path without a root.
theorem file?_of_uri?_plain_name :
    let path := Path.ofText "in/ü 50%.proto".toList
    let uri := "platform:/resource/p/ü 50%.proto".toList
    projectWorkspace.uri? projectDisk path = .ok (some uri) ∧
    (projectWorkspace.file? projectDisk (Uri.parse uri)).value =
      (projectDisk.resolve path).map some ∧
    (projectWorkspace.holds projectDisk (Uri.parse uri)).value = .ok true := by
  let resolved : Path :=
    ⟨.root, ["home".toList, "ws".toList, "p".toList, "ü 50%.proto".toList]⟩
  have hresolve : projectDisk.resolve (Path.ofText "in/ü 50%.proto".toList) = .ok resolved := by
    decide +kernel
  have harrived : projectDisk.resolution (Path.ofText "in/ü 50%.proto".toList) = .arrived
      [(⟨.above 0, ["in".toList]⟩, some ⟨.above 0, ["ws".toList, "p".toList]⟩),
        (⟨.above 0, ["in".toList]⟩, none)]
      ⟨.above 0, ["ws".toList, "p".toList, "ü 50%.proto".toList]⟩ := by decide +kernel
  have hbelow : projectWorkspace.root.below? resolved =
      some ["p".toList, "ü 50%.proto".toList] := by decide +kernel
  obtain ⟨uri, huri, hback, _⟩ := file?_of_uri? harrived hresolve hbelow (by simp)
    (fun _ => ⟨projectDisk_grounded, by decide +kernel⟩)
  have hspelled : projectWorkspace.uri? projectDisk (Path.ofText "in/ü 50%.proto".toList) =
      .ok (some "platform:/resource/p/ü 50%.proto".toList) := by decide +kernel
  rw [hspelled] at huri
  cases huri
  obtain ⟨hfile, hholds⟩ := hback (by decide +kernel)
  refine ⟨hspelled, by rw [hfile, hresolve]; rfl, hholds.trans (by decide +kernel)⟩

-- A name that is written like an escape is read as one, so the way back misses the file.
theorem file?_of_uri?_escaped_name :
    let path : Path := ⟨.root, ["home".toList, "ws".toList, "p".toList, "%41.proto".toList]⟩
    let uri := "platform:/resource/p/%41.proto".toList
    projectDisk.resolution path = .arrived [] ⟨.root, path.names⟩ ∧
    projectDisk.resolve path = .ok path ∧
    projectWorkspace.root.below? path = some ["p".toList, "%41.proto".toList] ∧
    projectWorkspace.uri? projectDisk path = .ok (some uri) ∧
    (projectWorkspace.file? projectDisk (Uri.parse uri)).value =
      .ok (some ⟨.root, ["home".toList, "ws".toList, "p".toList, "A.proto".toList]⟩) ∧
    (projectWorkspace.holds projectDisk (Uri.parse uri)).value = .ok false ∧
    projectDisk.isFile? path = .ok true := by
  decide +kernel

end Workspace

end WorkspaceImports

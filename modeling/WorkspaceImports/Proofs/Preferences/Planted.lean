import WorkspaceImports.Proofs.Disk.Tower
import WorkspaceImports.Proofs.Preferences.Place
import WorkspaceImports.Proofs.Workspace.Unlinked

namespace WorkspaceImports

open Disk (IsName)

namespace Preferences.Loader

variable {workspace : Workspace} (hroot : workspace.Rooted) {segment : Text}

include hroot

-- The pieces of the path to a segment's preferences file that count lead to it from the root, from
-- the root itself for a single dot, and from the folder above it for two.
theorem collapse_way (hne : segment ≠ []) :
    Path.collapse []
        (Disk.counted (workspace.root.names ++ ([segment].filter (· ≠ ['.']) ++ way))) =
      (if segment = ['.'] then workspace.root.names
        else if segment = ['.', '.'] then workspace.root.names.dropLast
        else workspace.root.names ++ [segment]) ++ way := by
  have hway : Disk.counted way = way := by decide +kernel
  have hdots : ['.', '.'] ∉ way := by decide +kernel
  rw [hroot.collapse_counted]
  by_cases hdot : segment = ['.']
  · have hkept : Disk.counted ([segment].filter (· ≠ ['.']) ++ way) = way := by
      subst hdot
      decide +kernel
    rw [hkept, if_pos hdot, Path.collapse_of_notMem _ hdots]
  · have hkept : Disk.counted ([segment].filter (· ≠ ['.']) ++ way) = segment :: way := by
      simp only [Disk.counted, List.filter_append] at hway ⊢
      rw [hway]
      simp [hne, hdot]
    rw [hkept, if_neg hdot, Path.collapse]
    split
    · rw [Path.collapse_of_notMem _ hdots]
    · rw [Path.collapse_of_notMem _ hdots]

end Preferences.Loader

-- A disk with nothing but the preferences of the project at a place.
def Disk.onlyPreferences (here project : Location) (content : List UInt8) : Disk :=
  .tower here (project ++ [".settings".toList]) [("proto_paths.json".toList, .file content)]

namespace Disk

variable (here project : Location) (content : List UInt8)

theorem onlyPreferences_unlinked : (onlyPreferences here project content).Unlinked :=
  tower_unlinked (Node.unlinked_folder (by simp [Node.unlinked_file])) _ _

theorem onlyPreferences_at? :
    (onlyPreferences here project content).at? (project ++ Preferences.Loader.way) =
      some (.file content) := by
  have hsplit : project ++ Preferences.Loader.way =
      (project ++ [".settings".toList]) ++ ["proto_paths.json".toList] := by
    rw [Preferences.Loader.way, List.append_assoc]
    rfl
  rw [hsplit, onlyPreferences, tower_at?]
  rfl

theorem eq_of_onlyPreferences_at? {found : Location} {other : List UInt8}
    (h : (onlyPreferences here project content).at? found = some (.file other)) :
    found = project ++ Preferences.Loader.way := by
  rw [eq_of_tower_at? h, Preferences.Loader.way, List.append_assoc]
  rfl

end Disk

namespace Preferences.Loader

variable {workspace : Workspace} (hroot : workspace.Rooted) {segment : Text} (here : Location)
  (defaults : Configuration) (content : List UInt8)

include hroot

-- On such a disk the loader finds the preferences of the project alone.
theorem find_elsewhere (project : Text) (hne : segment ≠ []) (hslash : '/' ∉ segment)
    (hother : segment ≠ project) (found : List UInt8) :
    (Disk.onlyPreferences here (workspace.root.names ++ [project]) content).find
      ((usual workspace.root defaults).path segment) ≠ .ok (.file found) := by
  intro hfind
  have hat := Disk.at?_of_find (Disk.onlyPreferences_unlinked _ _ _) hfind
  rw [usual_path _ _ hne hslash, Disk.start, if_neg (by simp [hroot.anchor]),
    collapse_way hroot hne] at hat
  have hplace := List.append_cancel_right (Disk.eq_of_onlyPreferences_at? _ _ _ hat)
  split at hplace
  · simp at hplace
  split at hplace
  · have hlength := congrArg List.length hplace
    simp only [List.length_dropLast, List.length_append, List.length_singleton] at hlength
    omega
  · exact hother (by simpa using hplace)

-- The loader finds them unless the system does not take the path.
theorem find_there (hne : segment ≠ []) (hslash : '/' ∉ segment)
    (hnames : ∀ name ∈ [segment].filter (· ≠ ['.']), IsName name) :
    let disk := Disk.onlyPreferences here
      (workspace.root.names ++ [segment].filter (· ≠ ['.'])) content
    disk.find ((usual workspace.root defaults).path segment) = .ok (.file content) ∨
      disk.find ((usual workspace.root defaults).path segment) = .error .nameTooLong := by
  have hall : ∀ name ∈ workspace.root.names ++ [segment].filter (· ≠ ['.']) ++ way, IsName name :=
    List.forall_mem_append.mpr ⟨List.forall_mem_append.mpr ⟨hroot.names, hnames⟩,
      fun _ => isName_of_mem_way⟩
  intro disk
  rw [usual_path _ _ hne hslash, hroot.anchor, ← List.append_assoc,
    Disk.find_of_at? (Disk.onlyPreferences_unlinked _ _ _) hall
      (Disk.onlyPreferences_at? here _ content)]
  split
  · exact Or.inl rfl
  · exact Or.inr rfl

end Preferences.Loader

-- A disk with a folder at a place and preferences in the folder above it.
def Disk.preferencesAbove (here place : Location) (content : List UInt8) : Disk :=
  .tower here place.dropLast ((".settings".toList,
    .folder [("proto_paths.json".toList, .file content)]) ::
      place.getLast?.toList.map fun name => (name, .folder []))

namespace Disk

variable (here place : Location) (content : List UInt8)

theorem preferencesAbove_unlinked : (preferencesAbove here place content).Unlinked := by
  refine tower_unlinked (Node.unlinked_folder (List.forall_mem_cons.mpr ⟨?_, ?_⟩)) _ _
  · exact Node.unlinked_folder (by simp [Node.unlinked_file])
  · intro entry hmem
    obtain ⟨name, -, rfl⟩ := List.mem_map.mp hmem
    exact Node.unlinked_folder (by simp)

theorem preferencesAbove_at? :
    (preferencesAbove here place content).at? (place.dropLast ++ Preferences.Loader.way) =
      some (.file content) := by
  rw [preferencesAbove, tower_at?]
  rfl

theorem preferencesAbove_isFolder :
    (preferencesAbove here place content).isFolder place = true := by
  rcases List.eq_nil_or_concat place with rfl | ⟨before, name, rfl⟩
  · rfl
  · rw [List.concat_eq_append, preferencesAbove, List.dropLast_concat, List.getLast?_concat,
      isFolder, tower_at?]
    simp only [Option.toList_some, List.map_cons, List.map_nil, Node.at?, List.lookup_cons,
      beq_self_eq_true]
    cases name == ".settings".toList <;> rfl

-- The preferences are found behind the folder and two dots.
theorem find_above (hplace : ∀ name ∈ place, IsName name) :
    (preferencesAbove here place content).find
        ⟨.root, place ++ (['.', '.'] :: Preferences.Loader.way)⟩ = .ok (.file content) ∨
      (preferencesAbove here place content).find
        ⟨.root, place ++ (['.', '.'] :: Preferences.Loader.way)⟩ = .error .nameTooLong := by
  have hfolder := preferencesAbove_isFolder here place content
  have hfile := preferencesAbove_at? here place content
  have hwalk := walk_names (preferencesAbove here place content) [] hplace
    fun _ => isSome_of_isFolder hfolder
  have hback : (preferencesAbove here place content).next place ['.', '.'] =
      .ok place.dropLast := by simp [next, hfolder]
  have hway : (preferencesAbove here place content).walk place.dropLast Preferences.Loader.way =
      .ok (place.dropLast ++ Preferences.Loader.way) := by
    refine (walk_names_eq_ok_iff fun _ => Preferences.Loader.isName_of_mem_way).mpr ⟨rfl, ?_, ?_⟩
    · intro _
      rw [hfile]
      rfl
    · decide +kernel
  have hstart : (preferencesAbove here place content).start
      ⟨.root, place ++ (['.', '.'] :: Preferences.Loader.way)⟩ = [] := rfl
  rw [find_eq_walk (preferencesAbove_unlinked here place content), hstart, walk_append, hwalk]
  split
  · exact Or.inr rfl
  split
  · refine Or.inl ?_
    simp only [Except.bind, List.nil_append, walk, hback, hway, see, hfile]
  · exact Or.inr rfl

end Disk

-- Whatever a segment is, if the system can be asked for its preferences, a disk holds some.
theorem Preferences.Loader.exists_preferences {workspace : Workspace} (hroot : workspace.Rooted)
    {segment : Text} (here : Location) (defaults : Configuration) (content : List UInt8)
    (hne : segment ≠ []) (hslash : '/' ∉ segment) (hnull : '\x00' ∉ segment) :
    ∃ disk : Disk, disk.Unlinked ∧ disk.here = here ∧
      (disk.find ((usual workspace.root defaults).path segment) = .ok (.file content) ∨
        disk.find ((usual workspace.root defaults).path segment) = .error .nameTooLong) := by
  by_cases hdots : segment = ['.', '.']
  · refine ⟨Disk.preferencesAbove here workspace.root.names content,
      Disk.preferencesAbove_unlinked _ _ _, Disk.tower_here _ _ _, ?_⟩
    subst hdots
    rw [usual_path _ _ hne hslash, Path.filter_name (by decide), hroot.anchor]
    exact Disk.find_above here _ content hroot.names
  · refine ⟨Disk.onlyPreferences here
      (workspace.root.names ++ [segment].filter (· ≠ ['.'])) content,
      Disk.onlyPreferences_unlinked _ _ _, Disk.tower_here _ _ _, ?_⟩
    refine find_there hroot here defaults content hne hslash fun name hmem => ?_
    obtain ⟨hname, hdot⟩ := List.mem_filter.mp hmem
    obtain rfl := List.mem_singleton.mp hname
    exact ⟨hne, by simpa using hdot, hdots, hnull⟩

namespace Preferences.Loader

variable {workspace : Workspace}

-- With nothing but a project's own preferences on the disk, it is not loaded with the defaults, nor
-- as any other segment.
theorem load_differs (hroot : workspace.Rooted) (here : Location) {defaults : Configuration}
    {content : List UInt8} {configuration : Configuration} (hne : configuration ≠ defaults)
    (hcontent : ∀ path, ofBytes path content = .ok configuration) {project : Text}
    (hproject : IsName project) (hslash : '/' ∉ project) :
    let loader := usual workspace.root defaults
    let disk := Disk.onlyPreferences here (workspace.root.names ++ [project]) content
    (loader.load disk project).value ≠ .ok defaults ∧
      ∀ segment, segment ≠ [] → '/' ∉ segment → segment ≠ project →
        (loader.load disk segment).value ≠ (loader.load disk project).value := by
  intro loader disk
  have hkeep := Path.filter_name hproject.ne_dot
  have hthere := find_there hroot here defaults content hproject.ne_nil hslash
    (by rwa [hkeep, List.forall_mem_singleton])
  rw [hkeep] at hthere
  have hnull : (loader.path project).hasNull = false :=
    (usual_hasNull_eq_false_iff _ defaults hproject.ne_nil hslash).mpr
      ⟨fun name hmem => (hroot.names name hmem).noNull, hproject.noNull⟩
  have hload := load_of_file hnull hthere hcontent
  have hdefaults : (loader.load disk project).value ≠ .ok defaults := by
    intro heq
    rw [heq] at hload
    rcases hload with hload | hload
    · exact hne (Except.ok.inj hload).symm
    · cases hload
  refine ⟨hdefaults, fun segment hsegment hsegmentSlash hother heq => ?_⟩
  rcases load_of_no_file (find_elsewhere hroot here defaults content project hsegment
    hsegmentSlash hother) with helse | helse
  · exact hdefaults (heq.symm.trans helse)
  · -- Both paths are too long, but the failures tell them apart.
    rw [← heq] at hload
    rcases hload with hload | hload
    · rw [helse] at hload
      cases hload
    · rw [helse] at hload
      have hpath : loader.path segment = loader.path project := by simpa using hload
      rw [usual_path _ _ hsegment hsegmentSlash, usual_path _ _ hproject.ne_nil hslash, hkeep,
        Path.mk.injEq, and_iff_right rfl, List.append_cancel_left_eq,
        List.append_cancel_right_eq] at hpath
      have hmem : project ∈ [segment].filter (· ≠ ['.']) := by
        rw [hpath]
        exact List.mem_cons_self
      exact hother (List.mem_singleton.mp (List.mem_filter.mp hmem).1).symm

end Preferences.Loader

end WorkspaceImports

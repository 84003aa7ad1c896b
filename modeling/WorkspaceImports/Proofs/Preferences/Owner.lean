import WorkspaceImports.Proofs.Preferences.Planted
import WorkspaceImports.Proofs.Text.Percent
import WorkspaceImports.Resolver

namespace WorkspaceImports

open Disk (IsName)

namespace Workspace

variable {workspace : Workspace} {disk other : Disk} {owner : Uri}

-- The first segment is read as one name as it is written, and no later one starts at a root or
-- leads back.
def Stays (owner : Uri) : Prop :=
  match owner.segments with
  | _ :: project :: rest =>
      Uri.Literal project ∧ ∀ segment ∈ rest,
        (Path.ofText (Percent.decode segment)).anchor = .here ∧
          ['.', '.'] ∉ (Path.ofText (Percent.decode segment)).names
  | _ => True

-- So what is referred to lies in the project.
theorem target_of_stays (hlinks : disk.Unlinked) (hroot : workspace.Rooted) {text word : Text}
    {project : Text} {rest : List Text}
    (h : Stays ⟨text, .workspace, word :: project :: rest⟩) :
    let more := rest.flatMap fun segment => (Path.ofText (Percent.decode segment)).names
    workspace.target disk ⟨text, .workspace, word :: project :: rest⟩ =
      if (workspace.pathOf (project :: rest)).hasNull then .error .nullCharacter
      else .ok (.inside ⟨.root, workspace.root.names ++ project :: more⟩) := by
  intro more
  obtain ⟨hproject, hrest⟩ := h
  have hofText : Path.ofText (Percent.decode project) = ⟨.here, [project]⟩ := by
    rw [Percent.decode_eq_self_of_notMem hproject.noPercent,
      Path.ofText_segment hproject.ne_nil hproject.noSlash, Path.filter_name hproject.ne_dot]
  have hpath : (workspace.pathOf (project :: rest)).names =
      workspace.root.names ++ project :: more := by
    rw [workspace.pathOf_relative (List.forall_mem_cons.mpr
      ⟨by rw [hofText], fun segment hmem => (hrest segment hmem).1⟩), List.flatMap_cons, hofText]
    rfl
  have hcounted : Disk.counted (project :: more) = project :: more := by
    refine Disk.counted_eq_self (List.forall_mem_cons.mpr
      ⟨⟨hproject.ne_nil, hproject.ne_dot⟩, fun name hmem => ?_⟩)
    obtain ⟨segment, -, hname⟩ := List.mem_flatMap.mp hmem
    exact ⟨(Path.mem_ofText hname).1, (Path.mem_ofText hname).2.1⟩
  have hdots : ['.', '.'] ∉ project :: more := by
    intro hmem
    rcases List.mem_cons.mp hmem with heq | hmem
    · exact hproject.ne_dots heq.symm
    · obtain ⟨segment, hsegment, hname⟩ := List.mem_flatMap.mp hmem
      exact (hrest segment hsegment).2 hname
  rw [target_unlinked hlinks hroot, hpath, hroot.collapse_counted, hcounted,
    Path.collapse_of_notMem _ hdots]
  simp only [hroot.below?_append, Option.isSome_some, if_true]

-- The first segment after the word "resource" is the project of the owner's file, and an owner
-- outside the workspace has no project, or one whose preferences no path can lead to.
structure Names (workspace : Workspace) (disk : Disk) (owner : Uri) : Prop where
  inside : ∀ path project name rest, (workspace.file? disk owner).value = .ok (some path) →
    workspace.root.below? path = some (project :: name :: rest) → owner.project? = some project
  outside : workspace.target disk owner = .ok .outside →
    ∀ project, owner.project? = some project → '\x00' ∈ project

theorem Names.congr (h : workspace.Names disk owner) (hlinks : disk.Unlinked)
    (hothers : other.Unlinked) (hroot : workspace.Rooted) : workspace.Names other owner := by
  have htarget := workspace.target_eq_of_unlinked hlinks hothers hroot owner
  have hfile := workspace.file?_eq_of_unlinked hlinks hothers hroot owner
  exact ⟨hfile ▸ h.inside, htarget ▸ h.outside⟩

theorem names_of_stays (hlinks : disk.Unlinked) (hroot : workspace.Rooted)
    (hscheme : owner.scheme = .workspace) (h : Stays owner) : workspace.Names disk owner := by
  obtain ⟨text, scheme, segments⟩ := owner
  obtain rfl : scheme = .workspace := hscheme
  rcases segments with _ | ⟨word, _ | ⟨project, rest⟩⟩
  · constructor <;> simp [file?, target, inside?]
  · constructor <;> simp [file?, target, inside?]
  have htarget := target_of_stays hlinks hroot h
  cases hnull : (workspace.pathOf (project :: rest)).hasNull with
  | true => constructor <;> simp [file?, inside?, htarget, hnull]
  | false =>
      simp only [hnull, Bool.false_eq_true, if_false] at htarget
      constructor
      · intro path found name more hfile hbelow
        simp only [file?, inside?, htarget, Except.ok.injEq, Option.some.injEq] at hfile
        rw [← hfile, hroot.below?_append, Option.some.injEq, List.cons.injEq] at hbelow
        obtain ⟨rfl, hmore⟩ := hbelow
        cases rest with
        | nil => simp at hmore
        | cons next rest => rfl
      · simp [htarget]

end Workspace

namespace Preferences.Loader

-- The configuration for an owner is the one that its file's project is loaded with, and for an
-- owner outside the workspace the defaults.
structure Follows (loader : Loader) (workspace : Workspace) (disk : Disk) (owner : Uri) : Prop where
  inside : ∀ path project name rest, (workspace.file? disk owner).value = .ok (some path) →
    workspace.root.below? path = some (project :: name :: rest) →
    ((Source.preferences loader).configurationFor disk owner).value =
      (loader.load disk project).value
  outside : workspace.target disk owner = .ok .outside →
    ((Source.preferences loader).configurationFor disk owner).value = .ok loader.defaults

variable {workspace : Workspace} {disk : Disk} {owner : Uri}

theorem configurationFor_of_project? {loader : Loader} {project : Text}
    (h : owner.project? = some project) :
    (Source.preferences loader).configurationFor disk owner = loader.load disk project := by
  simp only [Source.configurationFor, h]

theorem follows_of_names {text : Text} (hnames : workspace.Names disk (Uri.parse text))
    (root : Path) (defaults : Configuration) :
    (usual root defaults).Follows workspace disk (Uri.parse text) := by
  constructor
  · intro path project name rest hfile hbelow
    rw [configurationFor_of_project? (hnames.inside path project name rest hfile hbelow)]
  · intro houtside
    cases hproject : (Uri.parse text).project? with
    | none => simp only [Source.configurationFor, hproject]
    | some project =>
        have hnull := hnames.outside houtside project hproject
        obtain ⟨hne, hslash⟩ := Uri.notMem_of_project? hproject
        rw [configurationFor_of_project? hproject]
        refine load_of_hasNull ?_
        rw [← Bool.not_eq_false, usual_hasNull_eq_false_iff root defaults hne hslash]
        exact fun h => h.2 hnull

-- An owner outside that still names a project can be led to preferences.
theorem not_follows_of_outside (hlinks : disk.Unlinked) (hroot : workspace.Rooted)
    {text segment : Text} (htarget : workspace.target disk (Uri.parse text) = .ok .outside)
    (hproject : (Uri.parse text).project? = some segment) (hnull : '\x00' ∉ segment)
    (defaults : Configuration) :
    ∃ other : Disk, other.Unlinked ∧ other.here = disk.here ∧
      ¬(usual workspace.root defaults).Follows workspace other (Uri.parse text) := by
  obtain ⟨content, configuration, hne, hcontent⟩ := exists_content defaults
  obtain ⟨hsegment, hslash⟩ := Uri.notMem_of_project? hproject
  obtain ⟨other, hothers, hhere, hfind⟩ :=
    exists_preferences hroot disk.here defaults content hsegment hslash hnull
  refine ⟨other, hothers, hhere, fun h => ?_⟩
  have hdefaults := h.outside (workspace.target_eq_of_unlinked hlinks hothers hroot _ ▸ htarget)
  rw [configurationFor_of_project? hproject] at hdefaults
  have hpath : ((usual workspace.root defaults).path segment).hasNull = false :=
    (usual_hasNull_eq_false_iff _ defaults hsegment hslash).mpr
      ⟨fun name hmem => (hroot.names name hmem).noNull, hnull⟩
  rcases load_of_file hpath hfind hcontent with hload | hload
  · rw [hload] at hdefaults
    exact hne (Except.ok.inj hdefaults)
  · rw [hload] at hdefaults
    cases hdefaults

-- An owner whose file is in another project than it names can be led past its preferences.
theorem not_follows_of_inside (hlinks : disk.Unlinked) (hroot : workspace.Rooted)
    (hslash : ∀ name ∈ workspace.root.names, '/' ∉ name) {text project name : Text} {path : Path}
    {rest : List Text} (hfile : (workspace.file? disk (Uri.parse text)).value = .ok (some path))
    (hbelow : workspace.root.below? path = some (project :: name :: rest))
    (hother : (Uri.parse text).project? ≠ some project) (defaults : Configuration) :
    ∃ other : Disk, other.Unlinked ∧ other.here = disk.here ∧
      ¬(usual workspace.root defaults).Follows workspace other (Uri.parse text) := by
  obtain ⟨content, configuration, hne, hcontent⟩ := exists_content defaults
  have hmem : project ∈ path.names := by simp [(Path.eq_append_of_below? hbelow).2]
  obtain ⟨hproject, hprojectSlash⟩ :=
    Workspace.isName_of_file? hlinks hroot hslash hfile project hmem
  let other := Disk.onlyPreferences disk.here (workspace.root.names ++ [project]) content
  have hothers : other.Unlinked := Disk.onlyPreferences_unlinked _ _ _
  refine ⟨other, hothers, Disk.tower_here _ _ _, fun h => ?_⟩
  have hfiles : (workspace.file? other (Uri.parse text)).value = .ok (some path) := by
    rw [← hfile, workspace.file?_eq_of_unlinked hothers hlinks hroot]
  have hagree := h.inside path project name rest hfiles hbelow
  obtain ⟨hdefaults, hdiffers⟩ := load_differs hroot disk.here hne hcontent hproject hprojectSlash
  cases hnamed : (Uri.parse text).project? with
  | none =>
      simp only [Source.configurationFor, hnamed] at hagree
      exact hdefaults hagree.symm
  | some segment =>
      obtain ⟨hsegment, hsegmentSlash⟩ := Uri.notMem_of_project? hnamed
      rw [configurationFor_of_project? hnamed] at hagree
      exact hdiffers segment hsegment hsegmentSlash (fun heq => hother (heq ▸ hnamed)) hagree

-- So an owner that does not name its project is led elsewhere by some disk.
theorem exists_not_follows (hlinks : disk.Unlinked) (hroot : workspace.Rooted)
    (hslash : ∀ name ∈ workspace.root.names, '/' ∉ name) {text : Text}
    (hnames : ¬workspace.Names disk (Uri.parse text)) (defaults : Configuration) :
    ∃ other : Disk, other.Unlinked ∧ other.here = disk.here ∧
      ¬(usual workspace.root defaults).Follows workspace other (Uri.parse text) := by
  apply Classical.byContradiction
  intro hnone
  refine hnames ⟨?_, ?_⟩
  · intro path project name rest hfile hbelow
    apply Classical.byContradiction
    intro hother
    exact hnone (not_follows_of_inside hlinks hroot hslash hfile hbelow hother defaults)
  · intro htarget project hproject
    apply Classical.byContradiction
    intro hnull
    exact hnone (not_follows_of_outside hlinks hroot htarget hproject hnull defaults)

-- The configuration for an owner is that of its file's project just if the owner names the
-- project, which it does if it spells it as it is and stays in it. For any other owner there are
-- disks where the preferences of another folder count, be it outside the workspace.
theorem follows_where_named (hlinks : disk.Unlinked)
    (hhere : ∀ name ∈ disk.here, IsName name ∧ '/' ∉ name) {root text : Text}
    (hroot : Workspace.ofRoot disk (Path.ofText root) = .ok workspace)
    (howner : Scheme.ofText text = .workspace) :
    let owner := Uri.parse text
    (workspace.Names disk owner → ∀ (start : Path) (defaults : Configuration) (other : Disk),
      other.Unlinked → (usual start defaults).Follows workspace other owner) ∧
    (¬workspace.Names disk owner → ∀ defaults, ∃ other : Disk, other.Unlinked ∧
      other.here = disk.here ∧ Workspace.ofRoot other workspace.root = .ok workspace ∧
      ¬(usual workspace.root defaults).Follows workspace other owner) ∧
    (Workspace.Stays owner → workspace.Names disk owner) := by
  intro owner
  have hrooted := Workspace.rooted_of_ofRoot hlinks (fun name hmem => (hhere name hmem).1) hroot
  have hslash := Workspace.notMem_of_ofRoot hlinks hhere hroot
  refine ⟨?_, ?_, Workspace.names_of_stays hlinks hrooted howner⟩
  · intro hnames start defaults other hothers
    exact follows_of_names (hnames.congr hlinks hothers hrooted) start defaults
  · intro hnames defaults
    obtain ⟨other, hothers, hsame, hfollows⟩ :=
      exists_not_follows hlinks hrooted hslash hnames defaults
    refine ⟨other, hothers, hsame, ?_, hfollows⟩
    exact hrooted.ofRoot_eq hothers (hsame ▸ fun name hmem => (hhere name hmem).1)

private def severalFolders : List UInt8 :=
  Utf8.encode "\x7b\"strategy\": \"MULTI_FOLDER\", \"folderNames\": \"src\"\x7d".toList

private def severalSource : Configuration := ⟨.multiFolder, [.text "src".toList]⟩

-- An escape behind the project does no harm.
theorem follows_escaped_file :
    let workspace : Workspace := ⟨⟨.root, ["ws".toList]⟩⟩
    let disk := Disk.onlyPreferences [] ["ws".toList, "p".toList] severalFolders
    let loader := usual (Path.ofText "/ws".toList) .standard
    let owner := Uri.parse "platform:/resource/p/%61.proto".toList
    loader.Follows workspace disk owner ∧
    (workspace.file? disk owner).value =
      .ok (some ⟨.root, ["ws".toList, "p".toList, "a.proto".toList]⟩) ∧
    ((Source.preferences loader).configurationFor disk owner).value = .ok severalSource := by
  intro workspace disk loader owner
  have hlinks : disk.Unlinked := Disk.onlyPreferences_unlinked _ _ _
  have hhere : disk.here = [] := Disk.tower_here _ _ _
  have hroot : Workspace.ofRoot disk (Path.ofText "/ws".toList) = .ok workspace := by
    decide +kernel
  have howner : Scheme.ofText "platform:/resource/p/%61.proto".toList = .workspace := by
    decide +kernel
  have hstays : Workspace.Stays owner := by
    have hsegments : owner.segments =
        ["resource".toList, "p".toList, "%61.proto".toList] := by decide +kernel
    have hproject : Uri.Plain "p".toList := by decide +kernel
    rw [Workspace.Stays, hsegments]
    exact ⟨hproject.literal, by decide +kernel⟩
  obtain ⟨hfollows, -, hnamed⟩ := follows_where_named hlinks (by simp [hhere]) hroot howner
  exact ⟨hfollows (hnamed hstays) _ _ disk hlinks, by decide +kernel, by decide +kernel⟩

-- An escape in the project hides its preferences, and two dots in its place lead to preferences
-- outside the workspace.
theorem not_follows_escaped_project :
    let workspace : Workspace := ⟨⟨.root, ["ws".toList]⟩⟩
    let loader := usual (Path.ofText "/ws".toList) .standard
    let inside := Disk.onlyPreferences [] ["ws".toList, "p".toList] severalFolders
    let above := Disk.preferencesAbove [] ["ws".toList] severalFolders
    let escaped := Uri.parse "platform:/resource/%70/a.proto".toList
    let outer := Uri.parse "platform:/resource/../a.proto".toList
    inside.Unlinked ∧ Workspace.ofRoot inside (Path.ofText "/ws".toList) = .ok workspace ∧
    (workspace.file? inside escaped).value =
      .ok (some ⟨.root, ["ws".toList, "p".toList, "a.proto".toList]⟩) ∧
    (loader.load inside "p".toList).value = .ok severalSource ∧
    ((Source.preferences loader).configurationFor inside escaped).value = .ok .standard ∧
    above.Unlinked ∧ Workspace.ofRoot above (Path.ofText "/ws".toList) = .ok workspace ∧
    workspace.target above outer = .ok .outside ∧
    ((Source.preferences loader).configurationFor above outer).value = .ok severalSource := by
  refine ⟨Disk.onlyPreferences_unlinked _ _ _, ?_, ?_, ?_, ?_, Disk.preferencesAbove_unlinked _ _ _,
    ?_, ?_, ?_⟩ <;> decide +kernel

end Preferences.Loader

end WorkspaceImports

import WorkspaceImports.Proofs.Disk.Tower
import WorkspaceImports.Proofs.Import.Candidate
import WorkspaceImports.Proofs.Import.FailedCheck
import WorkspaceImports.Proofs.Preferences.Place
import WorkspaceImports.Proofs.Workspace.Wording
import WorkspaceImports.Resolver

namespace WorkspaceImports

open Disk (IsName)
open Preferences (Loader)

-- Two disks that have the same at a place and below it.
def Disk.SameBelow (place : Location) (disk other : Disk) : Prop :=
  ∀ more, disk.at? (place ++ more) = other.at? (place ++ more)

-- A path that leads to a folder. The system may still refuse the path for its length.
def Disk.LeadsToFolder (disk : Disk) (path : Path) : Prop :=
  ∃ place, disk.walk (disk.start path) path.names = .ok place ∧ disk.isFolder place = true

-- Segments that decoding does not change and that do not lead back.
def Wording.Onward (segments : List Wording) : Prop :=
  ∀ segment ∈ segments, .char '%' ∉ segment ∧ segment ≠ [.char '.', .char '.']

instance (segments : List Wording) : Decidable (Wording.Onward segments) :=
  inferInstanceAs (Decidable (∀ segment ∈ segments, _))

namespace Workspace

variable {workspace : Workspace} {disk other : Disk} {project : Text}

-- A root that leads to a folder is resolved to the place that it leads to.
theorem walk_root (hlinks : disk.Unlinked) (hhere : ∀ name ∈ disk.here, IsName name) {root : Path}
    (hroot : ofRoot disk root = .ok workspace) (hfolder : disk.LeadsToFolder root) :
    disk.walk (disk.start root) root.names = .ok workspace.root.names ∧
      disk.isFolder workspace.root.names = true := by
  obtain ⟨place, hwalk, hthere⟩ := hfolder
  obtain rfl := Disk.walk_eq_ok hwalk
  rw [ofRoot_unlinked hlinks hhere] at hroot
  split at hroot
  · cases hroot
  · cases hroot
    exact ⟨hwalk, hthere⟩

section Same

variable (hlinks : disk.Unlinked) (hothers : other.Unlinked)
  (hfolder : disk.isFolder workspace.root.names = true)
  (hother : other.isFolder workspace.root.names = true)
  (hsame : Disk.SameBelow (workspace.root.names ++ [project]) disk other)

include hlinks hothers hfolder hother hsame

-- What the system finds in a project is the same, whichever way it comes to the root.
theorem find_same {path : Path} {before more : List Text}
    (hpath : path.names = before ++ project :: more)
    (hnames : ∀ name ∈ project :: more, IsName name)
    (hbefore : disk.walk (disk.start path) before = other.walk (other.start path) before)
    (hplace : ∀ found, disk.walk (disk.start path) before = .ok found →
      found = workspace.root.names) : disk.find path = other.find path := by
  refine Disk.find_congr hlinks hothers hpath (by simp) hnames hbefore hplace
    (hfolder.trans hother.symm) ?_
  intro names hne hprefix
  obtain ⟨name, rest, rfl⟩ := List.exists_cons_of_ne_nil hne
  obtain ⟨rfl, -⟩ := List.cons_prefix_cons.mp hprefix
  simpa using hsame rest

-- The preferences are found in the project, behind the names that lead to the root.
theorem load_same {root : Path} (hproject : Uri.Plain project) (defaults : Configuration)
    (hwalk : disk.walk (disk.start root) root.names = .ok workspace.root.names)
    (hwalks : other.walk (other.start root) root.names = .ok workspace.root.names) :
    (Loader.usual root defaults).load disk project =
      (Loader.usual root defaults).load other project := by
  have hpath : (Loader.usual root defaults).path project =
      ⟨root.anchor, root.names ++ project :: Loader.way⟩ := by
    rw [Loader.usual_path root defaults hproject.ne_nil hproject.noSlash,
      Path.filter_name hproject.ne_dot]
    rfl
  have hnames : ∀ name ∈ project :: Loader.way, IsName name :=
    List.forall_mem_cons.mpr ⟨hproject.toIsName, fun _ => Loader.isName_of_mem_way⟩
  refine Loader.load_congr ?_
  rw [hpath]
  refine find_same hlinks hothers hfolder hother hsame rfl hnames (hwalk.trans hwalks.symm) ?_
  intro found hfound
  exact Except.ok.inj (hfound.symm.trans hwalk)

variable (hroot : workspace.Rooted)

include hroot

theorem isFile?_same {more : List Text} (hnames : ∀ name ∈ project :: more, IsName name) :
    disk.isFile? ⟨.root, workspace.root.names ++ project :: more⟩ =
      other.isFile? ⟨.root, workspace.root.names ++ project :: more⟩ := by
  have hwalk := Disk.walk_names disk [] hroot.names fun _ => Disk.isSome_of_isFolder hfolder
  have hwalks := Disk.walk_names other [] hroot.names fun _ => Disk.isSome_of_isFolder hother
  have hplace : ∀ found, disk.walk [] workspace.root.names = .ok found →
      found = workspace.root.names := by
    intro found hfound
    rw [hwalk] at hfound
    split at hfound
    · cases hfound
      simp
    · cases hfound
  have hfind := find_same hlinks hothers hfolder hother hsame
    (@rfl _ (Path.mk .root (workspace.root.names ++ project :: more)).names) hnames
    (hwalk.trans hwalks.symm) hplace
  simp only [Disk.isFile?, Disk.test, hfind]

-- So the check says the same about every resource of the project.
theorem check_same {wording word : Wording} {more : List Wording}
    (hscheme : wording.scheme = .workspace)
    (hsegments : wording.segments = word :: .text project :: more) (hproject : Uri.Plain project)
    (hmore : ∀ segment ∈ more, segment ≠ [] ∧ .char '/' ∉ segment)
    (honward : Wording.Onward more) :
    workspace.check disk wording = workspace.check other wording := by
  have hparts : ∀ segment ∈ Wording.text project :: more,
      segment ≠ [] ∧ .char '/' ∉ segment :=
    List.forall_mem_cons.mpr
      ⟨⟨Wording.text_ne_nil_iff.mpr hproject.ne_nil, by simpa using hproject.noSlash⟩, hmore⟩
  have hpercent : ∀ segment ∈ Wording.text project :: more, .char '%' ∉ segment :=
    List.forall_mem_cons.mpr
      ⟨by simpa using hproject.noPercent, fun segment hmem => (honward segment hmem).1⟩
  have hdots : [.char '.', .char '.'] ∉ Wording.text project :: more := by
    intro hmem
    rcases List.mem_cons.mp hmem with heq | hmem
    · exact hproject.ne_dots (Wording.text_injective heq.symm)
    · exact (honward _ hmem).2 rfl
  have hkept : namesOf (Wording.text project :: more) = project :: namesOf more := by
    have hdot : Wording.text project ≠ [.char '.'] :=
      fun heq => hproject.ne_dot (Wording.text_injective heq)
    rw [namesOf, List.filter_cons_of_pos (by simpa using hdot), List.map_cons, Wording.name_text]
    rfl
  have hholds : workspace.holdsWording disk wording = workspace.holdsWording other wording := by
    rw [holdsWording_undecoded hlinks hroot hscheme hsegments (by simp) hparts hpercent hdots,
      holdsWording_undecoded hothers hroot hscheme hsegments (by simp) hparts hpercent hdots]
    by_cases hnull : ∀ name ∈ namesOf (Wording.text project :: more), '\x00' ∉ name
    · have hnames : ∀ name ∈ project :: namesOf more, IsName name := by
        intro name hmem
        rw [← hkept] at hmem
        obtain ⟨hne, hdot, hback⟩ :=
          ne_of_mem_namesOf (fun part hpart => (hparts part hpart).1) hdots hmem
        exact ⟨hne, hdot, hback, hnull name hmem⟩
      rw [if_pos hnull, if_pos hnull, hkept,
        isFile?_same hlinks hothers hfolder hother hsame hroot hnames]
    · rw [if_neg hnull, if_neg hnull]
  simp only [check, hholds]

end Same

end Workspace

namespace Resolver

-- What a resolver finds is the same wherever it has the same configuration for the owner and the
-- check says the same about the candidates.
theorem fix_congr {disk other : Disk} {check second : Check} {source : Source} {owner : Uri}
    {written : Wording}
    (hsource : source.configurationFor disk owner = source.configurationFor other owner)
    (hcheck : ∀ configuration, (source.configurationFor disk owner).value = .ok configuration →
      ∀ wording ∈ Import.candidates configuration owner written,
        check wording = second wording) :
    (Resolver.mk check source).fix disk owner written =
      (Resolver.mk second source).fix other owner written := by
  simp only [fix, ← hsource]
  cases hfound : source.configurationFor disk owner with
  | mk value log =>
      cases value with
      | error failure => rfl
      | ok configuration =>
          have hresolve : Import.resolve disk check configuration owner written =
              Import.resolve other second configuration owner written :=
            Import.resolve_congr (hcheck configuration (by rw [hfound]))
          simp only [Import.fix, hresolve]

variable {workspace : Workspace} {disk other : Disk} {root : Path}
  {project owner word : Text} {written : Wording} {rest : List Text} {defaults : Configuration}

-- Projects are isolated. What becomes of an import in a file of a project, and whether it fails,
-- is a matter of the project alone: two disks on which the workspace root is a folder and which
-- have the same at the project and below it give the same, down to the questions and the log.
theorem fix_isolated (hlinks : disk.Unlinked) (hothers : other.Unlinked)
    (hhere : ∀ name ∈ disk.here, IsName name) (hstart : other.here = disk.here)
    (hroot : Workspace.ofRoot disk root = .ok workspace)
    (hfolder : disk.LeadsToFolder root) (hother : other.LeadsToFolder root)
    (hsame : Disk.SameBelow (workspace.root.names ++ [project]) disk other)
    (hproject : Uri.Plain project) (howner : Scheme.ofText owner = .workspace)
    (hsegments : (Uri.parse owner).segments = word :: project :: rest) (hrest : rest ≠ [])
    (honward : Wording.Onward (rest.map .text))
    (hwritten : Wording.Onward (Text.segments (.char '/') written))
    (hfolders : ∀ configuration,
      ((Loader.usual root defaults).load disk project).value = .ok configuration →
      ∀ name ∈ configuration.folderNames, Wording.Onward (Text.segments (.char '/') name)) :
    let source := Source.preferences (.usual root defaults)
    Workspace.ofRoot other root = .ok workspace ∧
    (Resolver.mk (workspace.check disk) source).fix disk (Uri.parse owner) written =
      (Resolver.mk (workspace.check other) source).fix other (Uri.parse owner) written := by
  have hrooted := Workspace.rooted_of_ofRoot hlinks hhere hroot
  have hroots : Workspace.ofRoot other root = .ok workspace := by
    rw [← hroot, Workspace.ofRoot_unlinked hlinks hhere,
      Workspace.ofRoot_unlinked hothers (hstart ▸ hhere)]
    simp only [Disk.start, hstart]
  obtain ⟨hwalk, hfolder⟩ := Workspace.walk_root hlinks hhere hroot hfolder
  obtain ⟨hwalks, hother⟩ := Workspace.walk_root hothers (hstart ▸ hhere) hroots hother
  have hload := Workspace.load_same hlinks hothers hfolder hother hsame hproject defaults hwalk
    hwalks
  have hconfiguration : ∀ disk, (Source.preferences (.usual root defaults)).configurationFor disk
      (Uri.parse owner) = (Loader.usual root defaults).load disk project := by
    intro disk
    obtain ⟨next, more, rfl⟩ := List.exists_cons_of_ne_nil hrest
    have hscheme : (Uri.parse owner).scheme = .workspace := howner
    simp only [Source.configurationFor, Uri.project?, hscheme, hsegments]
  have hinner : innerSegments (Uri.parse owner).segments = project :: rest.dropLast := by
    rw [hsegments, innerSegments_eq, List.tail_cons, List.dropLast_cons_of_ne_nil hrest]
  have hparts : ∀ part ∈ rest, part ≠ [] ∧ '/' ∉ part := by
    intro part hmem
    have hmem : part ∈ (Uri.parse owner).segments := by
      rw [hsegments]
      exact List.mem_cons_of_mem _ (List.mem_cons_of_mem _ hmem)
    exact Text.mem_segments hmem
  refine ⟨hroots, fix_congr (by rw [hconfiguration, hconfiguration, hload]) ?_⟩
  intro configuration hfound wording hmem
  rw [hconfiguration] at hfound
  obtain ⟨more, hworkspace, hread, hmore⟩ := Import.reads_of_mem_candidates hinner
    (Text.segments_of_notMem hproject.noSlash hproject.ne_nil) hmem
  refine Workspace.check_same hlinks hothers hfolder hother hsame hrooted hworkspace hread hproject
    ?_ ?_
  · intro segment hsegment
    rcases hmore segment hsegment with hpart | hname | himport
    · obtain ⟨part, -, hmem⟩ := List.mem_flatMap.mp hpart
      exact Text.mem_segments hmem
    · obtain ⟨name, -, hmem⟩ := List.mem_flatMap.mp hname
      exact Text.mem_segments hmem
    · exact Text.mem_segments himport
  · intro segment hsegment
    rcases hmore segment hsegment with hpart | hname | himport
    · obtain ⟨_, hmap, hmem⟩ := List.mem_flatMap.mp hpart
      obtain ⟨part, hkept, rfl⟩ := List.mem_map.mp hmap
      have hpart := (List.dropLast_prefix rest).subset hkept
      rw [Text.segments_text, Text.segments_of_notMem (hparts part hpart).2 (hparts part hpart).1,
        List.map_singleton, List.mem_singleton] at hmem
      exact honward segment (hmem ▸ List.mem_map_of_mem hpart)
    · obtain ⟨name, hname, hmem⟩ := List.mem_flatMap.mp hname
      exact hfolders configuration hfound name hname segment hmem
    · exact hwritten segment himport

-- A project that looks in two folders, alone in its workspace and beside files of the same names.
private def lonelyProject : Node := .folder [
  (".settings".toList, .folder [("proto_paths.json".toList, .file (Utf8.encode
    "\x7b\"strategy\": \"MULTI_FOLDER\", \"folderNames\": \"gen,src\"\x7d".toList))]),
  ("src".toList, .folder [("a.proto".toList, .file []), ("b.proto".toList, .file [])])]

private def lonelyDisk : Disk := ⟨[("w".toList, .folder [("p".toList, lonelyProject)])], []⟩

private def crowdedDisk : Disk := {
  entries := [
    ("w".toList, .folder [
      ("gen".toList, .folder [("b.proto".toList, .file [])]),
      ("q".toList, .folder [("gen".toList, .folder [("b.proto".toList, .file [])])]),
      ("p".toList, lonelyProject)]),
    ("b.proto".toList, .file [])]
  here := [] }

private theorem lonelyProject_unlinked : lonelyProject.Unlinked := by
  simp [lonelyProject, Node.unlinked_folder, Node.unlinked_file]

theorem fix_beside_other_projects :
    let root := Path.ofText "/w".toList
    let owner := "platform:/resource/p/src/a.proto".toList
    let fixed := fun disk =>
      (Resolver.mk (Workspace.check ⟨root⟩ disk) (.preferences (.usual root .standard))).fix disk
        (Uri.parse owner) (.text "b.proto".toList)
    Disk.SameBelow ["w".toList, "p".toList] lonelyDisk crowdedDisk ∧
    ((Loader.usual root .standard).load lonelyDisk "p".toList).value =
      .ok ⟨.multiFolder, ["gen".toList, "src".toList].map .text⟩ ∧
    (fixed lonelyDisk).value = .ok (.text "platform:/resource/p/src/b.proto".toList) ∧
    fixed crowdedDisk = fixed lonelyDisk := by
  have hlonely : lonelyDisk.Unlinked := by
    refine Disk.unlinked_of_root (Node.unlinked_folder ?_)
    simp [lonelyDisk, Node.unlinked_folder, lonelyProject_unlinked]
  have hcrowded : crowdedDisk.Unlinked := by
    refine Disk.unlinked_of_root (Node.unlinked_folder ?_)
    simp [crowdedDisk, Node.unlinked_folder, Node.unlinked_file, lonelyProject_unlinked]
  have hroot : Workspace.ofRoot lonelyDisk (Path.ofText "/w".toList) =
      .ok ⟨Path.ofText "/w".toList⟩ := by decide +kernel
  have hfolder : lonelyDisk.LeadsToFolder (Path.ofText "/w".toList) :=
    ⟨["w".toList], by decide +kernel, by decide +kernel⟩
  have hother : crowdedDisk.LeadsToFolder (Path.ofText "/w".toList) :=
    ⟨["w".toList], by decide +kernel, by decide +kernel⟩
  have hsame : Disk.SameBelow ["w".toList, "p".toList] lonelyDisk crowdedDisk := fun _ => rfl
  have hproject : Uri.Plain "p".toList := by decide +kernel
  have howner : Scheme.ofText "platform:/resource/p/src/a.proto".toList = .workspace := by
    decide +kernel
  have hsegments : (Uri.parse "platform:/resource/p/src/a.proto".toList).segments =
      "resource".toList :: "p".toList :: ["src".toList, "a.proto".toList] := by decide +kernel
  have hwritten : Wording.Onward (Text.segments (.char '/') (Wording.text "b.proto".toList)) := by
    decide +kernel
  have hload : ((Loader.usual (Path.ofText "/w".toList) .standard).load lonelyDisk
      "p".toList).value = .ok ⟨.multiFolder, ["gen".toList, "src".toList].map .text⟩ := by
    decide +kernel
  have hname : (Uri.parse "platform:/resource/p/src/a.proto".toList).project? =
      some "p".toList := by decide +kernel
  have hfolders : ∀ configuration, ((Loader.usual (Path.ofText "/w".toList) .standard).load
      lonelyDisk "p".toList).value = .ok configuration →
      ∀ name ∈ configuration.folderNames, Wording.Onward (Text.segments (.char '/') name) := by
    intro configuration hfound
    rw [hload] at hfound
    cases hfound
    decide +kernel
  obtain ⟨-, hfixed⟩ := fix_isolated hlonely hcrowded (by simp [lonelyDisk]) rfl hroot hfolder
    hother hsame hproject howner hsegments (by simp) (by decide +kernel) hwritten hfolders
  refine ⟨hsame, hload, ?_, hfixed.symm⟩
  simp only [fix_value, Source.configurationFor, hname, hload, Except.map]
  exact congrArg Except.ok (by decide +kernel)

end Resolver

end WorkspaceImports

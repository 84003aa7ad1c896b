import WorkspaceImports.Proofs.Import.Search

namespace WorkspaceImports

section Pieces

variable {α : Type} [BEq α] [LawfulBEq α] {separator : α}

theorem Text.segments_append_of_head (text : List α) {rest : List α}
    (h : rest.head? = some separator) :
    segments separator (text ++ rest) = segments separator text ++ segments separator rest := by
  obtain ⟨more, rfl⟩ := List.head?_eq_some_iff.mp h
  rw [segments_append_cons, segments_cons_separator]

-- Parts that are each announced by a separator keep their segments to themselves.
theorem Text.segments_flatMap_cons (parts : List (List α)) (text : List α) :
    segments separator (parts.flatMap (separator :: ·) ++ separator :: text) =
      parts.flatMap (segments separator) ++ segments separator text := by
  induction parts with
  | nil => exact segments_cons_separator text
  | cons part rest ih =>
      have hhead : (rest.flatMap (separator :: ·) ++ separator :: text).head? = some separator := by
        cases rest <;> rfl
      simp only [List.flatMap_cons, List.append_assoc, List.cons_append]
      rw [segments_cons_separator, segments_append_of_head part hhead, ih]

theorem Text.flatMap_segments {parts : List (List α)}
    (h : ∀ part ∈ parts, part ≠ [] ∧ separator ∉ part) :
    parts.flatMap (segments separator) = parts := by
  induction parts with
  | nil => rfl
  | cons part rest ih =>
      obtain ⟨hpart, hrest⟩ := List.forall_mem_cons.mp h
      rw [List.flatMap_cons, segments_of_notMem hpart.2 hpart.1, ih hrest, List.singleton_append]

end Pieces

namespace Import

-- The segments of a folder before the one at which an import's own path takes over.
def kept (written : Wording) (folder : List Wording) : List Wording :=
  folder.takeWhile (some · ≠ (Text.segments (.char '/') written).head?)

-- The segments that an import is looked for at when it is seen from a folder.
def wayTo (written : Wording) (folder : List Wording) : List Wording :=
  (kept written folder).flatMap (Text.segments (.char '/')) ++ Text.segments (.char '/') written

-- A way that is spelled behind the opening is read back as its pieces, whatever its parts hold.
theorem reads_spelled (parts : List Wording) (written : Wording) :
    let wording :=
      Wording.text Scheme.workspace.opening ++ parts.flatMap (.char '/' :: ·) ++
        .char '/' :: written
    wording.scheme = .workspace ∧
      wording.segments = Wording.text "resource".toList ::
        (parts.flatMap (Text.segments (.char '/')) ++ Text.segments (.char '/') written) := by
  have hslash : ∃ path : Wording,
      .char '/' :: path = parts.flatMap (Letter.char '/' :: ·) ++ .char '/' :: written := by
    cases parts with
    | nil => exact ⟨written, rfl⟩
    | cons part rest =>
        exact ⟨part ++ rest.flatMap (Letter.char '/' :: ·) ++ .char '/' :: written, by simp⟩
  obtain ⟨path, hpath⟩ := hslash
  have hsegments : Text.segments (.char '/') path =
      parts.flatMap (Text.segments (.char '/')) ++ Text.segments (.char '/') written := by
    rw [← Text.segments_flatMap_cons, ← hpath, Text.segments_cons_separator]
  simp only [List.append_assoc, ← hpath, ← hsegments]
  exact ⟨Wording.scheme_workspace path, Wording.segments_workspace path⟩

theorem reads_candidate (written : Wording) (folder : List Wording) :
    let wording := candidate written (Text.segments (.char '/') written).head? folder
    wording.scheme = .workspace ∧
      wording.segments = Wording.text "resource".toList :: wayTo written folder :=
  reads_spelled (kept written folder) written

-- The import's own path takes over at the first segment that equals a given one, or behind all of
-- them. So a folder falls into two parts, and the candidate spells the first one.
theorem exists_takeover (written : Wording) (first : Option Wording) (folder : List Wording) :
    ∃ before after, folder = before ++ after ∧ (∀ segment ∈ before, some segment ≠ first) ∧
      (∀ segment, after.head? = some segment → some segment = first) ∧
      candidate written first folder =
        Wording.text Scheme.workspace.opening ++ before.flatMap (.char '/' :: ·) ++
          .char '/' :: written := by
  refine ⟨folder.takeWhile (some · ≠ first), folder.dropWhile (some · ≠ first),
    List.takeWhile_append_dropWhile.symm, ?_, ?_, rfl⟩
  · intro segment hmem
    simpa using List.all_eq_true.mp List.all_takeWhile segment hmem
  · intro segment hhead
    have hstop := List.head?_dropWhile_not (fun segment => decide (some segment ≠ first)) folder
    rw [hhead] at hstop
    simpa using hstop

-- What is asked about an import seen from a folder names a resource of the workspace, and reads
-- back as what it was made of: the pieces of the folder's segments before the takeover, however
-- these are spelled, and then the pieces of the import.
theorem attempt_reads_back (disk : Disk) (check : Check) (written : Wording)
    (first : Option Wording) (folder : List Wording) :
    ∃ before after wording, folder = before ++ after ∧
      (∀ segment ∈ before, some segment ≠ first) ∧
      (∀ segment, after.head? = some segment → some segment = first) ∧
      (attempt disk check written first folder).asked = [wording] ∧
      wording.scheme = .workspace ∧
      Wording.text "platform:/resource/".toList <+: wording ∧ .char '/' :: written <:+ wording ∧
      wording.segments = Wording.text "resource".toList ::
        (before.flatMap (Text.segments (.char '/')) ++ Text.segments (.char '/') written) := by
  obtain ⟨before, after, hfolder, hbefore, hafter, hwording⟩ :=
    exists_takeover written first folder
  obtain ⟨path, hpath⟩ := exists_candidate_eq written first folder
  have hopening : Wording.text "platform:/resource/".toList =
      Wording.text Scheme.workspace.opening ++ [.char '/'] := by decide +kernel
  obtain ⟨hscheme, hsegments⟩ := reads_spelled before written
  rw [← hwording] at hscheme hsegments
  refine ⟨before, after, candidate written first folder, hfolder, hbefore, hafter,
    attempt_asked disk check written first folder, hscheme, ?_, ?_, hsegments⟩
  · exact ⟨path, by rw [hpath, hopening, List.append_assoc, List.singleton_append]⟩
  · exact ⟨Wording.text Scheme.workspace.opening ++ before.flatMap (.char '/' :: ·), hwording.symm⟩

-- Empty segments, separators in them and what looks like a scheme do no harm.
example :
    let folder := ["", "a//b", "file:", "gen", "c"].map fun name => Wording.text name.toList
    let wording := candidate (.text "gen/t.proto".toList) (some (.text "gen".toList)) folder
    wording = .text "platform:/resource//a//b/file:/gen/t.proto".toList ∧ wording.segments =
      ["resource", "a", "b", "file:", "gen", "t.proto"].map fun name => .text name.toList := by
  decide +kernel

theorem wayTo_of_names {written : Wording} {folder : List Wording}
    (h : ∀ name ∈ kept written folder, name ≠ [] ∧ .char '/' ∉ name) :
    wayTo written folder = kept written folder ++ Text.segments (.char '/') written := by
  rw [wayTo, Text.flatMap_segments h]

-- The way to an import leads into the project that the folder is in: either the folder keeps its
-- project, or the import's own path begins with it.
theorem wayTo_project (written : Wording) {project : Wording}
    (hproject : Text.segments (.char '/') project = [project]) (rest : List Wording) :
    ∃ more, wayTo written (project :: rest) = project :: more ∧
      ∀ segment ∈ more, segment ∈ rest.flatMap (Text.segments (.char '/')) ∨
        segment ∈ Text.segments (.char '/') written := by
  by_cases hfirst : some project = (Text.segments (.char '/') written).head?
  · obtain ⟨more, hwritten⟩ := List.head?_eq_some_iff.mp hfirst.symm
    refine ⟨more, by simp [wayTo, kept, hwritten], ?_⟩
    intro segment hmem
    rw [hwritten]
    exact Or.inr (List.mem_cons_of_mem _ hmem)
  · refine ⟨wayTo written rest, by simp [wayTo, kept, hfirst, hproject], ?_⟩
    intro segment hmem
    rcases List.mem_append.mp hmem with hmem | hmem
    · obtain ⟨part, hpart, hmem⟩ := List.mem_flatMap.mp hmem
      exact Or.inl (List.mem_flatMap.mpr ⟨part, (List.takeWhile_prefix _).subset hpart, hmem⟩)
    · exact Or.inr hmem

-- A candidate is seen from the owner's own folder, or from one with a folder name in the place of
-- the source folder.
theorem mem_candidates {configuration : Configuration} {owner : Uri} {written wording : Wording}
    (h : wording ∈ candidates configuration owner written) :
    ∃ folder, wording = candidate written (Text.segments (.char '/') written).head? folder ∧
      (folder = (innerSegments owner.segments).map Wording.text ∨
        ∃ name ∈ configuration.folderNames,
          folder = ((innerSegments owner.segments).map Wording.text).set sourceFolder name) := by
  unfold candidates at h
  cases hstrategy : configuration.strategy with
  | singleFolder =>
      simp only [hstrategy, List.mem_singleton] at h
      exact ⟨_, h, Or.inl rfl⟩
  | multiFolder =>
      simp only [hstrategy] at h
      split at h
      · cases h
      · obtain ⟨name, hname, rfl⟩ := List.mem_map.mp h
        exact ⟨_, rfl, Or.inr ⟨name, hname, rfl⟩⟩

-- So whatever is looked for is in the owner's project. The segments on the way to it are those of
-- the owner's folder, of a folder name or of the import.
theorem reads_of_mem_candidates {configuration : Configuration} {owner : Uri}
    {written wording : Wording} {project : Text} {inner : List Text}
    (hinner : innerSegments owner.segments = project :: inner)
    (hproject : Text.segments '/' project = [project])
    (h : wording ∈ candidates configuration owner written) :
    ∃ more, wording.scheme = .workspace ∧
      wording.segments = Wording.text "resource".toList :: .text project :: more ∧
      ∀ segment ∈ more,
        segment ∈ (inner.map Wording.text).flatMap (Text.segments (.char '/')) ∨
        segment ∈ configuration.folderNames.flatMap (Text.segments (.char '/')) ∨
        segment ∈ Text.segments (.char '/') written := by
  obtain ⟨folder, rfl, hfolder⟩ := mem_candidates h
  obtain ⟨hscheme, hsegments⟩ := reads_candidate written folder
  have hproject : Text.segments (.char '/') (Wording.text project) = [Wording.text project] := by
    rw [Text.segments_text, hproject, List.map_singleton]
  rcases hfolder with rfl | ⟨name, hname, rfl⟩
  · rw [hinner, List.map_cons] at hscheme hsegments ⊢
    obtain ⟨more, hway, hmore⟩ := wayTo_project written hproject (inner.map Wording.text)
    exact ⟨more, hscheme, by rw [hsegments, hway],
      fun segment hmem => (hmore segment hmem).imp_right Or.inr⟩
  · rw [hinner, List.map_cons] at hscheme hsegments ⊢
    obtain ⟨more, hway, hmore⟩ := wayTo_project written hproject
      ((inner.map Wording.text).set 0 name)
    refine ⟨more, hscheme, by rw [hsegments, sourceFolder, List.set_cons_succ, hway], ?_⟩
    intro segment hmem
    rcases hmore segment hmem with hset | hwritten
    · obtain ⟨part, hpart, hmem⟩ := List.mem_flatMap.mp hset
      rcases List.mem_or_eq_of_mem_set hpart with hpart | rfl
      · exact Or.inl (List.mem_flatMap.mpr ⟨part, hpart, hmem⟩)
      · exact Or.inr (Or.inl (List.mem_flatMap.mpr ⟨part, hname, hmem⟩))
    · exact Or.inr (Or.inr hwritten)

-- The inner segments of an owner begin with its project.
theorem innerSegments_of_project? {owner : Uri} {project : Text}
    (h : owner.project? = some project) :
    ∃ inner, innerSegments owner.segments = project :: inner := by
  obtain ⟨-, hlong, hproject⟩ := Uri.project?_eq_some_iff.mp h
  rw [innerSegments_eq]
  match hsegments : owner.segments, hlong with
  | _ :: name :: next :: rest, _ =>
      rw [hsegments] at hproject
      exact ⟨(next :: rest).dropLast, by rw [← Option.some.inj hproject]; rfl⟩

-- A relative import is looked for in the project of the file that it stands in, and found nowhere
-- else, whatever the import, the folder names and the check say.
theorem resolve_stays_in_project (disk : Disk) (check : Check) (configuration : Configuration)
    {owner : Text} {written : Wording} (hscheme : (Uri.parse owner).scheme = .workspace)
    (hlong : 3 ≤ (Uri.parse owner).segments.length) (hrelative : isAbsolute written = false) :
    let found := resolve disk check configuration (Uri.parse owner) written
    ∃ project, (Uri.parse owner).project? = some project ∧
      ∀ wording : Wording, wording ∈ found.asked ∨ found.value = some wording →
        wording.scheme = .workspace ∧ wording.segments[1]? = some (.text project) ∧
        (3 ≤ wording.segments.length → wording.project? = some (.text project)) := by
  intro found
  obtain ⟨hvalue, hasked⟩ :=
    resolve_spec disk check configuration (Uri.parse owner) written hrelative
  have howner : (Uri.parse owner).project? = some (Uri.parse owner).segments[1] :=
    Uri.project?_eq_some_iff.mpr ⟨hscheme, hlong, List.getElem?_eq_getElem _⟩
  obtain ⟨inner, hinner⟩ := innerSegments_of_project? howner
  obtain ⟨hne, hslash⟩ := Uri.notMem_of_project? howner
  refine ⟨_, howner, fun wording h => ?_⟩
  have hmem : wording ∈ candidates configuration (Uri.parse owner) written := by
    rcases h with hmem | hfound
    · exact List.mem_of_mem_take (hasked ▸ hmem)
    · exact List.mem_of_find?_eq_some (hvalue.symm.trans hfound)
  obtain ⟨more, hworkspace, hsegments, -⟩ :=
    reads_of_mem_candidates hinner (Text.segments_of_notMem hslash hne) hmem
  refine ⟨hworkspace, by rw [hsegments]; rfl, fun hlong => ?_⟩
  rw [hsegments] at hlong
  cases more with
  | nil => exact absurd hlong (by simp)
  | cons next rest => simp only [Wording.project?, hworkspace, hsegments]

-- Folder names that are empty or lead through other projects.
private def wayward : Configuration :=
  ⟨.multiFolder, ["".toList, "/other//src/".toList, "../other".toList].map .text⟩

theorem resolve_wayward_folders :
    let owner := "platform:/resource//p/src/a.proto".toList
    let written := Wording.text "//b.proto".toList
    let found :=
      resolve ⟨[], []⟩ (fun _ => ⟨.value (.bool false), []⟩) wayward (Uri.parse owner) written
    (Uri.parse owner).scheme = .workspace ∧ 3 ≤ (Uri.parse owner).segments.length ∧
    isAbsolute written = false ∧
    found.asked = ["platform:/resource/p////b.proto".toList,
      "platform:/resource/p//other//src////b.proto".toList,
      "platform:/resource/p/../other///b.proto".toList].map .text ∧
    ∀ wording ∈ found.asked, wording.segments[1]? = some (.text "p".toList) := by
  intro owner written found
  have hscheme : (Uri.parse owner).scheme = .workspace := by decide +kernel
  have hlong : 3 ≤ (Uri.parse owner).segments.length := by decide +kernel
  have hrelative : isAbsolute written = false := by decide +kernel
  obtain ⟨project, hproject, hplaced⟩ := resolve_stays_in_project ⟨[], []⟩
    (fun _ => ⟨.value (.bool false), []⟩) wayward hscheme hlong hrelative
  have hp : some "p".toList = some project := hproject ▸ (by decide +kernel)
  refine ⟨hscheme, hlong, hrelative, by decide +kernel, fun wording hmem => ?_⟩
  rw [Option.some.inj hp]
  exact (hplaced wording (Or.inl hmem)).2.1

section Agreement

variable {disk other : Disk} {check second : Check} {written : Wording}

theorem attempt_congr (first : Option Wording) (folder : List Wording)
    (h : check (candidate written first folder) = second (candidate written first folder)) :
    attempt disk check written first folder = attempt other second written first folder := by
  simp only [attempt, isThere_candidate, Check.ask, h]

theorem tryFolders_congr (first : Option Wording) (base : List Wording)
    (folders : List FolderName)
    (h : sourceFolder < base.length → ∀ folder ∈ folders,
      check (candidate written first (base.set sourceFolder folder)) =
        second (candidate written first (base.set sourceFolder folder))) :
    tryFolders disk check written first base folders =
      tryFolders other second written first base folders := by
  induction folders with
  | nil => rfl
  | cons folder rest ih =>
      have hrest := ih fun hlong other hmem => h hlong other (List.mem_cons_of_mem _ hmem)
      by_cases hshort : base.length ≤ sourceFolder
      · simp only [tryFolders, hshort, if_true, hrest]
      · have hattempt : attempt disk check written first (base.set sourceFolder folder) =
            attempt other second written first (base.set sourceFolder folder) :=
          attempt_congr first _ (h (by omega) folder List.mem_cons_self)
        simp only [tryFolders, hshort, if_false, hattempt, hrest]

-- A resolution learns of the disk and of the check nothing but what the check says about the
-- candidates.
theorem resolve_congr {configuration : Configuration} {owner : Uri}
    (h : ∀ wording ∈ candidates configuration owner written, check wording = second wording) :
    resolve disk check configuration owner written =
      resolve other second configuration owner written := by
  unfold candidates at h
  unfold resolve
  cases isAbsolute written with
  | true => rfl
  | false =>
      cases hstrategy : configuration.strategy with
      | singleFolder =>
          simp only [hstrategy, List.mem_singleton, forall_eq] at h
          exact attempt_congr _ _ h
      | multiFolder =>
          simp only [hstrategy] at h
          refine tryFolders_congr _ _ _ fun hlong folder hmem => ?_
          rw [if_neg (Nat.not_le_of_lt hlong)] at h
          exact h _ (List.mem_map.mpr ⟨folder, hmem, rfl⟩)

end Agreement

end Import

end WorkspaceImports

import WorkspaceImports.Proofs.Uri.Wording
import WorkspaceImports.Resolution

namespace WorkspaceImports

-- Whether a check says yes about a wording. A check that fails does not.
def Check.accepts (check : Check) (wording : Wording) : Bool := (check wording).answer.holds

@[simp] theorem Check.ask_value (check : Check) (wording : Wording) :
    (check.ask wording).value = check.accepts wording := by
  cases hanswer : (check wording).answer <;>
    simp only [Check.ask, Check.accepts, hanswer, Answer.holds]

@[simp] theorem Check.ask_asked (check : Check) (wording : Wording) :
    (check.ask wording).asked = [wording] := by
  cases hanswer : (check wording).answer <;> simp only [Check.ask, hanswer]

theorem innerSegments_eq (segments : List Text) :
    innerSegments segments = segments.tail.dropLast := by
  cases segments with
  | nil => rfl
  | cons first rest =>
      cases rest with
      | nil => rfl
      | cons second rest =>
          have hlong : ¬(first :: second :: rest).length < 2 := by
            simp only [List.length_cons]
            omega
          rw [innerSegments, if_neg hlong]

namespace Import

variable (disk : Disk) (check : Check)

-- The first piece of an import that is not empty.
def firstPiece (written : Wording) : Option Wording :=
  (written.splitOn (.char '/')).find? (!·.isEmpty)

-- The way through a folder, up to the segment at which the import's own path takes over.
def wayThrough (first : Option Wording) : List Wording → Wording
  | [] => []
  | segment :: rest =>
      if some segment = first then [] else .char '/' :: segment ++ wayThrough first rest

theorem candidate_eq (written : Wording) (first : Option Wording) (folder : List Wording) :
    candidate written first folder =
      .text Scheme.workspace.opening ++ wayThrough first folder ++ .char '/' :: written := by
  have hway : (folder.takeWhile (some · ≠ first)).flatMap (Letter.char '/' :: ·) =
      wayThrough first folder := by
    induction folder with
    | nil => rfl
    | cons segment rest ih =>
        by_cases hstop : some segment = first
        · simp [wayThrough, hstop]
        · simp [wayThrough, hstop, ← ih]
  rw [candidate, hway]

-- Whatever the folder's segments hold, a candidate goes on with a slash after the opening.
theorem exists_candidate_eq (written : Wording) (first : Option Wording)
    (folder : List Wording) : ∃ path : Wording,
      candidate written first folder = .text Scheme.workspace.opening ++ .char '/' :: path := by
  rw [candidate_eq]
  cases folder with
  | nil => exact ⟨written, by simp [wayThrough]⟩
  | cons segment rest =>
      by_cases hstop : some segment = first
      · exact ⟨written, by simp [wayThrough, hstop]⟩
      · exact ⟨segment ++ wayThrough first rest ++ .char '/' :: written,
          by simp [wayThrough, hstop]⟩

-- So the check is asked about it, and nothing else is.
theorem isThere_candidate (written : Wording) (first : Option Wording) (folder : List Wording) :
    (candidate written first folder).isThere disk check =
      check.ask (candidate written first folder) := by
  obtain ⟨path, hpath⟩ := exists_candidate_eq written first folder
  rw [hpath, Wording.isThere, Wording.scheme_workspace]

theorem attempt_value (written : Wording) (first : Option Wording) (folder : List Wording) :
    (attempt disk check written first folder).value =
      if check.accepts (candidate written first folder) then
        some (candidate written first folder) else none := by
  simp only [attempt, isThere_candidate, Inquiry.map, Check.ask_value]

theorem attempt_asked (written : Wording) (first : Option Wording) (folder : List Wording) :
    (attempt disk check written first folder).asked = [candidate written first folder] := by
  simp only [attempt, isThere_candidate, Inquiry.map, Check.ask_asked]

-- Without a source folder no candidate is made and nothing is asked.
theorem tryFolders_short (written : Wording) (first : Option Wording) (base : List Wording)
    (hbase : base.length ≤ sourceFolder) (folders : List FolderName) :
    (tryFolders disk check written first base folders).value = none ∧
    (tryFolders disk check written first base folders).asked = [] := by
  induction folders with
  | nil => exact ⟨rfl, rfl⟩
  | cons folder rest ih =>
      simp only [tryFolders, hbase, if_true, Inquiry.logging]
      exact ih

-- The search through the folders stops at the first candidate that is accepted and asks about
-- no candidate after it.
theorem tryFolders_spec (written : Wording) (first : Option Wording) (base : List Wording)
    (hbase : sourceFolder < base.length) (folders : List FolderName) :
    let list := folders.map fun folder => candidate written first (base.set sourceFolder folder)
    (tryFolders disk check written first base folders).value = list.find? check.accepts ∧
    (tryFolders disk check written first base folders).asked =
      list.take (list.findIdx check.accepts + 1) := by
  induction folders with
  | nil => exact ⟨rfl, rfl⟩
  | cons folder rest ih =>
      obtain ⟨hvalue, hasked⟩ := ih
      have hlong : ¬base.length ≤ sourceFolder := by omega
      simp only [tryFolders, hlong, if_false, Inquiry.andThen, attempt_value, attempt_asked,
        List.map_cons, List.find?_cons, List.findIdx_cons]
      cases haccept : check.accepts (candidate written first (base.set sourceFolder folder)) with
      | true => exact ⟨rfl, rfl⟩
      | false => exact ⟨hvalue, by simpa using hasked⟩

variable (configuration : Configuration) (owner : Uri) (written : Wording)

-- An import that names its target by a scheme is left alone.
theorem resolve_of_isAbsolute {written : Wording} (h : isAbsolute written = true) :
    resolve disk check configuration owner written = .pure (some written) := by
  rw [resolve, if_pos h]

-- For any other one the search goes through its candidates in order.
theorem resolve_spec (h : isAbsolute written = false) :
    (resolve disk check configuration owner written).value =
      (candidates configuration owner written).find? check.accepts ∧
    (resolve disk check configuration owner written).asked =
      (candidates configuration owner written).take
        ((candidates configuration owner written).findIdx check.accepts + 1) := by
  unfold resolve candidates
  simp only [h, Bool.false_eq_true, if_false]
  cases configuration.strategy with
  | singleFolder =>
      simp only [attempt_value, attempt_asked, List.find?_cons, List.find?_nil]
      constructor
      · split <;> simp_all
      · simp
  | multiFolder =>
      by_cases hbase :
          ((innerSegments owner.segments).map Wording.text).length ≤ sourceFolder
      · simp only [hbase, if_true]
        exact tryFolders_short disk check _ _ _ hbase _
      · simp only [hbase, if_false]
        exact tryFolders_spec disk check _ _ _ (by omega) _

-- The resolution of an import is the first of its candidates that the check accepts, and the
-- check is asked about the candidates up to that one, each once and in order. The candidates
-- are spelled out: one for the owner's own folder, or one for each folder name, as it is written,
-- in the place of the source folder, if the owner has one.
theorem resolve_eq_first_accepted (h : isAbsolute written = false) :
    let base := owner.segments.tail.dropLast.map Wording.text
    let seenFrom := fun folder => Wording.text "platform:/resource".toList
      ++ wayThrough (firstPiece written) folder ++ .char '/' :: written
    let found := resolve disk check configuration owner written
    let list := candidates configuration owner written
    found.value = list.find? check.accepts ∧
    found.asked = list.take (list.findIdx check.accepts + 1) ∧
    (configuration.strategy = .singleFolder → list = [seenFrom base]) ∧
    (configuration.strategy = .multiFolder → base.length < 2 → list = []) ∧
    (configuration.strategy = .multiFolder → 2 ≤ base.length →
      list = configuration.folderNames.map fun name => seenFrom (base.set 1 name)) := by
  intro base
  obtain ⟨hvalue, hasked⟩ := resolve_spec disk check configuration owner written h
  have hbase : (innerSegments owner.segments).map Wording.text = base := by
    rw [innerSegments_eq]
  refine ⟨hvalue, hasked, ?_, ?_, ?_⟩
  · intro hsingle
    simp only [candidates, hsingle, hbase, candidate_eq, Text.head?_segments]
    rfl
  · intro hmulti hshort
    have hshort : base.length ≤ sourceFolder := Nat.le_of_lt_succ hshort
    simp only [candidates, hmulti, hbase, hshort, if_true]
  · intro hmulti hlong
    have hlong : ¬base.length ≤ sourceFolder := Nat.not_le_of_lt hlong
    simp only [candidates, hmulti, hbase, hlong, if_false, candidate_eq, Text.head?_segments]
    rfl

-- A check that fails in the folder "src" and says yes everywhere else.
private def failingInSrc : Check := fun wording =>
  if wording = .text "platform:/resource/proj/src/b.proto".toList then
    ⟨.failure "workspace closed".toList, []⟩
  else ⟨.value (.bool true), []⟩

-- The name of the second folder holds a half and is asked about as it is.
private def threeFolders : Configuration :=
  ⟨.multiFolder, [.text "src".toList, [.half 0xDCFF], .text "other".toList]⟩

theorem resolve_past_failing_folder :
    let owner := Uri.parse "platform:/resource/proj/old/a.proto".toList
    let written := Wording.text "b.proto".toList
    let found := resolve ⟨[], []⟩ failingInSrc threeFolders owner written
    let second := Wording.text "platform:/resource/proj/".toList ++ .half 0xDCFF ::
      Wording.text "/b.proto".toList
    isAbsolute written = false ∧ found.value = some second ∧
    found.asked = [.text "platform:/resource/proj/src/b.proto".toList, second] := by
  intro owner written found second
  have hwritten : isAbsolute written = false := by decide +kernel
  obtain ⟨hvalue, hasked, -, -, hlist⟩ :=
    resolve_eq_first_accepted ⟨[], []⟩ failingInSrc threeFolders owner written hwritten
  rw [hlist rfl (by decide +kernel)] at hvalue hasked
  exact ⟨hwritten, hvalue.trans (by decide +kernel), hasked.trans (by decide +kernel)⟩

end Import

end WorkspaceImports

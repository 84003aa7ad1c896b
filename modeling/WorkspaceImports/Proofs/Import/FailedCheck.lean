import WorkspaceImports.Proofs.Disk.Locate
import WorkspaceImports.Proofs.Import.Search
import WorkspaceImports.Resolver
import WorkspaceImports.Workspace

namespace WorkspaceImports

theorem Resolver.resolve_fixed (check : Check) (configuration : Configuration) (disk : Disk)
    (owner : Uri) (written : Wording) :
    ((Resolver.mk check (.fixed configuration)).resolve disk owner written).value =
      .ok (Import.resolve disk check configuration owner written).value := rfl

theorem Resolver.fix_value (resolver : Resolver) (disk : Disk) (owner : Uri)
    (written : Wording) :
    (resolver.fix disk owner written).value =
      (resolver.source.configurationFor disk owner).value.map fun configuration =>
        (Import.fix disk resolver.check configuration owner written).value := by
  unfold Resolver.fix
  obtain ⟨value, log⟩ := resolver.source.configurationFor disk owner
  cases value <;> rfl

def Event.isWarning (event : Event) : Bool := event.level = .warning

namespace Check

-- The check that plainly says yes or no, and no where the other one fails.
def decided (check : Check) : Check := fun wording =>
  ⟨.value (.bool (check.accepts wording)), []⟩

-- What is logged about a wording if the check fails there.
def failure? (check : Check) (wording : Wording) : Option Event :=
  match (check wording).answer with
  | .value _ => none
  | .failure reason => some (.checkFailed wording reason)

-- The warnings that a question leaves: the check's own ones, and one more if it fails.
def warnings (check : Check) (wording : Wording) : List Event :=
  (check wording).log.filter Event.isWarning ++ (check.failure? wording).toList

@[simp] theorem accepts_decided (check : Check) : check.decided.accepts = check.accepts := by
  funext wording
  rfl

theorem ask_warnings (check : Check) (wording : Wording) :
    (check.ask wording).log.filter Event.isWarning = check.warnings wording := by
  cases hanswer : (check wording).answer with
  | value value => simp [ask, warnings, failure?, hanswer]
  | failure reason => simp [ask, warnings, failure?, hanswer, Event.isWarning, Event.level]

end Check

namespace Import

variable (disk : Disk) (check : Check)

theorem attempt_warnings (written : Wording) (first : Option Wording) (folder : List Wording) :
    let tried := attempt disk check written first folder
    tried.log.filter Event.isWarning = tried.asked.flatMap check.warnings := by
  simp only [attempt, isThere_candidate, Inquiry.map, Check.ask_asked, List.flatMap_singleton,
    Check.ask_warnings]

-- A folder that is skipped leaves no warning, so there are just those of the questions, in order.
theorem tryFolders_warnings (written : Wording) (first : Option Wording) (base : List Wording)
    (folders : List FolderName) :
    let tried := tryFolders disk check written first base folders
    tried.log.filter Event.isWarning = tried.asked.flatMap check.warnings := by
  induction folders with
  | nil => rfl
  | cons folder rest ih =>
      by_cases hshort : base.length ≤ sourceFolder
      · simp only [tryFolders, hshort, if_true, Inquiry.logging]
        exact ih
      have htried := attempt_warnings disk check written first (base.set sourceFolder folder)
      simp only [tryFolders, hshort, if_false, Inquiry.andThen, List.filter_append,
        List.flatMap_append, htried]
      cases (attempt disk check written first (base.set sourceFolder folder)).value with
      | none => simp only [ih]
      | some found => rfl

variable (configuration : Configuration) (owner : Uri) (written : Wording)

theorem resolve_warnings :
    let found := resolve disk check configuration owner written
    found.log.filter Event.isWarning = found.asked.flatMap check.warnings := by
  unfold resolve
  cases isAbsolute written with
  | true => rfl
  | false =>
      cases configuration.strategy with
      | singleFolder => exact attempt_warnings disk check _ _ _
      | multiFolder => exact tryFolders_warnings disk check _ _ _ _

-- What is found and what is asked depend on the check's answers only as far as they mean yes.
theorem resolve_decided :
    let found := resolve disk check configuration owner written
    let decided := resolve disk check.decided configuration owner written
    found.value = decided.value ∧ found.asked = decided.asked := by
  cases habsolute : isAbsolute written with
  | true => simp only [resolve_of_isAbsolute _ _ _ _ habsolute, and_self]
  | false =>
      obtain ⟨hvalue, hasked⟩ := resolve_spec disk check configuration owner written habsolute
      obtain ⟨hdecided, hquestions⟩ :=
        resolve_spec disk check.decided configuration owner written habsolute
      rw [Check.accepts_decided] at hdecided hquestions
      exact ⟨hvalue.trans hdecided.symm, hasked.trans hquestions.symm⟩

theorem fix_warnings :
    let fixed := fix disk check configuration owner written
    fixed.log.filter Event.isWarning = fixed.asked.flatMap check.warnings := by
  have hlast (found : Option Wording) :
      [Event.importFixed owner.text written found].filter Event.isWarning = [] := rfl
  simp only [fix, List.filter_append, hlast, List.append_nil]
  exact resolve_warnings disk check configuration owner written

end Import

namespace Workspace

-- The check of a workspace says yes just where the workspace holds the file, also if it has no
-- answer elsewhere.
theorem accepts_check (workspace : Workspace) (disk : Disk) (wording : Wording) :
    (workspace.check disk).accepts wording =
      decide ((workspace.holdsWording disk wording).value = .ok true) := by
  unfold Check.accepts check
  cases workspace.holdsWording disk wording with
  | mk value log =>
      cases value with
      | error failure => rfl
      | ok found => cases found <;> rfl

end Workspace

namespace Import

-- A check that fails is one that says no. The result and the questions are those of the plain
-- yes or no, each failure leaves one warning at its place, and nothing is left without a result.
-- So a resolver with the check of a workspace always has one, on any disk and for any texts: the
-- first candidate that the workspace holds.
theorem failed_check_means_no (disk : Disk) (check : Check) (configuration : Configuration)
    (owner : Uri) (written : Wording) :
    let found := resolve disk check configuration owner written
    let fixed := fix disk check configuration owner written
    (found.value = (resolve disk check.decided configuration owner written).value ∧
      found.asked = (resolve disk check.decided configuration owner written).asked ∧
      found.log.filter Event.isWarning = found.asked.flatMap fun wording =>
        (check wording).log.filter Event.isWarning ++ (check.failure? wording).toList) ∧
    (fixed.value = (fix disk check.decided configuration owner written).value ∧
      fixed.asked = (fix disk check.decided configuration owner written).asked ∧
      fixed.log.filter Event.isWarning = fixed.asked.flatMap fun wording =>
        (check wording).log.filter Event.isWarning ++ (check.failure? wording).toList) ∧
    ∀ workspace : Workspace,
      let resolver : Resolver := ⟨workspace.check disk, .fixed configuration⟩
      let first := if isAbsolute written then some written
        else (candidates configuration owner written).find? fun wording =>
          (workspace.holdsWording disk wording).value = .ok true
      (resolver.resolve disk owner written).value = .ok first ∧
      (resolver.fix disk owner written).value = .ok (first.getD written) := by
  obtain ⟨hvalue, hasked⟩ := resolve_decided disk check configuration owner written
  refine ⟨⟨hvalue, hasked, resolve_warnings disk check configuration owner written⟩,
    ⟨?_, hasked, fix_warnings disk check configuration owner written⟩, ?_⟩
  · simp only [fix, hvalue]
  · intro workspace
    have hfirst : (resolve disk (workspace.check disk) configuration owner written).value =
        if isAbsolute written then some written
        else (candidates configuration owner written).find? fun wording =>
          (workspace.holdsWording disk wording).value = .ok true := by
      cases habsolute : isAbsolute written with
      | true => simp [resolve, habsolute, Inquiry.pure]
      | false =>
          rw [(resolve_spec disk _ configuration owner written habsolute).1]
          have haccepts := funext (workspace.accepts_check disk)
          simp only [haccepts, Bool.false_eq_true, if_false]
    constructor
    · simp only [Resolver.resolve, Source.configurationFor, hfirst]
    · simp only [Resolver.fix, Source.configurationFor, fix, hfirst]

end Import

end WorkspaceImports

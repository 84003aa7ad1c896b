import WorkspaceImports.Proofs.Disk.Growth
import WorkspaceImports.Proofs.Import.FailedCheck
import WorkspaceImports.Proofs.Workspace.Wording

namespace WorkspaceImports

namespace Workspace

variable {workspace : Workspace} {disk other : Disk}

-- What a workspace holds it still holds when the disk has grown.
theorem holdsWording_grown (h : disk.Grown other) {wording : Wording}
    (hholds : (workspace.holdsWording disk wording).value = .ok true) :
    (workspace.holdsWording other wording).value = .ok true := by
  obtain ⟨path, htarget, hisFile⟩ := holdsWording_eq_true_iff.mp hholds
  obtain ⟨hscheme, hlong, hresolve, hbelow⟩ := targetOf_eq_inside_iff.mp htarget
  obtain ⟨-, content, hfind⟩ := Disk.isFile?_eq_true_iff_find.mp hisFile
  have hresolved := h.resolve hresolve hfind
  exact holdsWording_eq_true_iff.mpr
    ⟨path, targetOf_eq_inside_iff.mpr ⟨hscheme, hlong, hresolved, hbelow⟩, h.isFile? hisFile⟩

theorem accepts_grown (h : disk.Grown other) {wording : Wording}
    (haccepts : (workspace.check disk).accepts wording = true) :
    (workspace.check other).accepts wording = true := by
  rw [accepts_check, decide_eq_true_iff] at haccepts ⊢
  exact holdsWording_grown h haccepts

end Workspace

namespace Import

variable (configuration : Configuration) (owner : Uri) (written : Wording)

-- The candidate for one of the folder names.
def candidateOf (name : FolderName) : Wording :=
  candidate written (Text.segments (.char '/') written).head?
    (((innerSegments owner.segments).map .text).set sourceFolder name)

-- The position of the first folder name whose candidate the check accepts.
def winner (check : Check) : Nat :=
  configuration.folderNames.findIdx fun name => check.accepts (candidateOf owner written name)

variable {configuration owner written}

theorem resolve_eq_winner {disk : Disk} {check : Check} {wording : Wording}
    (hstrategy : configuration.strategy = .multiFolder) (hrelative : isAbsolute written = false)
    (h : (resolve disk check configuration owner written).value = some wording) :
    (configuration.folderNames[winner configuration owner written check]?).map
      (candidateOf owner written) = some wording := by
  rw [(resolve_spec disk check configuration owner written hrelative).1, candidates] at h
  simp only [hstrategy] at h
  split at h
  · cases h
  · rwa [List.find?_map, List.find?_eq_getElem?_findIdx] at h

theorem winner_mono {check second : Check}
    (h : ∀ wording, check.accepts wording = true → second.accepts wording = true) :
    winner configuration owner written second ≤ winner configuration owner written check :=
  List.findIdx_le_findIdx fun name _ haccepts => h (candidateOf owner written name) haccepts

-- A check that accepts more leaves no import without its resolution.
theorem resolve_mono {disk : Disk} (other : Disk) {check second : Check} {wording : Wording}
    (hmore : ∀ wording, check.accepts wording = true → second.accepts wording = true)
    (h : (resolve disk check configuration owner written).value = some wording) :
    ∃ found, (resolve other second configuration owner written).value = some found ∧
      (configuration.strategy = .singleFolder → found = wording) := by
  cases habsolute : isAbsolute written with
  | true =>
      rw [resolve_of_isAbsolute _ _ _ _ habsolute] at h
      rw [resolve_of_isAbsolute _ _ _ _ habsolute]
      exact ⟨written, rfl, fun _ => Option.some.inj h⟩
  | false =>
      rw [(resolve_spec disk check configuration owner written habsolute).1] at h
      rw [(resolve_spec other second configuration owner written habsolute).1]
      have hmem := List.mem_of_find?_eq_some h
      have haccepts := hmore wording (List.find?_some h)
      obtain ⟨found, hfound⟩ := Option.isSome_iff_exists.mp
        (List.find?_isSome.mpr ⟨wording, hmem, haccepts⟩)
      refine ⟨found, hfound, fun hsingle => ?_⟩
      have hfolder := List.mem_of_find?_eq_some hfound
      simp only [candidates, hsingle, List.mem_singleton] at hmem hfolder
      rw [hfolder, hmem]

-- A new file takes no import its resolution away, whatever links the disk holds. An import that is
-- looked for in the owner's own folder keeps it, and with several folders one that comes no later
-- in their order wins.
theorem resolve_after_creation {disk : Disk} {folder : Location} {name : Text}
    (hfolder : disk.isFolder folder = true) (habsent : disk.at? (folder ++ [name]) = none)
    (rest : Location) (content : List UInt8) (workspace : Workspace)
    (configuration : Configuration) (owner : Uri) (written : Wording) :
    let other := disk.insert (folder ++ name :: rest) (.file content)
    let resolved := fun disk => ((Resolver.mk (workspace.check disk) (.fixed configuration)).resolve
      disk owner written).value
    let position := fun disk => winner configuration owner written (workspace.check disk)
    let candidateAt := fun index =>
      (configuration.folderNames[index]?).map (candidateOf owner written)
    ∀ wording, resolved disk = .ok (some wording) → ∃ found, resolved other = .ok (some found) ∧
      (configuration.strategy = .singleFolder → found = wording) ∧
      (configuration.strategy = .multiFolder → isAbsolute written = false →
        candidateAt (position disk) = some wording ∧ candidateAt (position other) = some found ∧
          position other ≤ position disk) := by
  intro other resolved position candidateAt wording h
  have hmore : ∀ wording, (workspace.check disk).accepts wording = true →
      (workspace.check other).accepts wording = true :=
    fun _ => Workspace.accepts_grown (Disk.grown_insert hfolder habsent rest content)
  have hvalue : (resolve disk (workspace.check disk) configuration owner written).value =
      some wording := Except.ok.inj h
  obtain ⟨found, hfound, hsingle⟩ := resolve_mono other hmore hvalue
  refine ⟨found, by simp only [resolved, Resolver.resolve_fixed, hfound], hsingle, ?_⟩
  intro hmulti hrelative
  exact ⟨resolve_eq_winner hmulti hrelative hvalue, resolve_eq_winner hmulti hrelative hfound,
    winner_mono hmore⟩

-- A project with a link to a folder that is not there yet.
private def awaitingDisk : Disk := {
  entries := [("ws".toList, .folder [
    ("p".toList, .folder [
      ("gen".toList, .link "../made/gen".toList),
      ("src".toList, .folder [("b.proto".toList, .file [])])])])]
  here := [] }

private def generatedFirst : Configuration :=
  ⟨.multiFolder, ["gen".toList, "src".toList].map .text⟩

theorem resolve_after_generation :
    let workspace : Workspace := ⟨⟨.root, ["ws".toList]⟩⟩
    let owner := Uri.parse "platform:/resource/p/src/a.proto".toList
    let written := Wording.text "b.proto".toList
    let made := awaitingDisk.insert (["ws".toList] ++ "made".toList ::
      ["gen".toList, "b.proto".toList]) (.file [])
    let resolved := fun disk =>
      ((Resolver.mk (workspace.check disk) (.fixed generatedFirst)).resolve disk owner
        written).value
    let position := fun disk => winner generatedFirst owner written (workspace.check disk)
    resolved awaitingDisk = .ok (some (.text "platform:/resource/p/src/b.proto".toList)) ∧
    resolved made = .ok (some (.text "platform:/resource/p/gen/b.proto".toList)) ∧
    position awaitingDisk = 1 ∧ position made = 0 := by
  intro workspace owner written made resolved position
  have hfolder : awaitingDisk.isFolder ["ws".toList] = true := by decide +kernel
  have habsent : awaitingDisk.at? (["ws".toList] ++ ["made".toList]) = none := by decide +kernel
  have hbefore : resolved awaitingDisk =
      .ok (some (.text "platform:/resource/p/src/b.proto".toList)) := by decide +kernel
  obtain ⟨found, hafter, -, hwinner⟩ := resolve_after_creation hfolder habsent
    ["gen".toList, "b.proto".toList] [] workspace generatedFirst owner written _ hbefore
  obtain ⟨-, hcandidate, -⟩ := hwinner rfl (by decide +kernel)
  have hfirst : winner generatedFirst owner written (workspace.check made) = 0 := by
    decide +kernel
  have hfound : found = .text "platform:/resource/p/gen/b.proto".toList := by
    change (generatedFirst.folderNames[winner generatedFirst owner written
      (workspace.check made)]?).map (candidateOf owner written) = some found at hcandidate
    rw [hfirst] at hcandidate
    exact Option.some.inj (hcandidate.symm.trans (by decide +kernel))
  exact ⟨hbefore, hfound ▸ hafter, by decide +kernel, hfirst⟩

end Import

end WorkspaceImports

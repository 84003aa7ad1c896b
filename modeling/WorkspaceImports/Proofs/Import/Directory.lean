import WorkspaceImports.Proofs.Import.Search

namespace WorkspaceImports.Import

variable (disk : Disk) (check : Check) (configuration : Configuration) {owner other : Uri}
  (written : Wording)

-- An owner counts for a resolution with its inner segments alone.
theorem resolve_congr_owner (h : innerSegments owner.segments = innerSegments other.segments) :
    resolve disk check configuration owner written =
      resolve disk check configuration other written := by
  simp only [resolve, h]

-- A folder name takes the source folder's place, so no candidate knows what stood there.
theorem tryFolders_congr_base (first : Option Wording) {base owned : List Wording}
    (hlong : sourceFolder < base.length) (hother : sourceFolder < owned.length)
    (hset : ∀ name, base.set sourceFolder name = owned.set sourceFolder name)
    (folders : List FolderName) :
    tryFolders disk check written first base folders =
      tryFolders disk check written first owned folders := by
  induction folders with
  | nil => rfl
  | cons folder rest ih =>
      simp only [tryFolders, Nat.not_le_of_lt hlong, Nat.not_le_of_lt hother, if_false,
        hset folder, ih]

-- Lists that differ at one position only are the same once it is overwritten.
theorem set_eq_set_of_getElem? {base owned : List Wording} {position : Nat}
    (hlong : position < base.length) (hother : position < owned.length)
    (h : ∀ i, i ≠ position → base[i]? = owned[i]?) (name : Wording) :
    base.set position name = owned.set position name := by
  apply List.ext_getElem?
  intro i
  by_cases hi : i = position
  · subst hi
    rw [List.getElem?_set_self hlong, List.getElem?_set_self hother]
  · rw [List.getElem?_set_ne (Ne.symm hi), List.getElem?_set_ne (Ne.symm hi), h i hi]

-- A resolution sees of an owner the segments between the first and the last, whatever its text and
-- its scheme. With several folders it does not even see the source folder: all of the result, the
-- questions and the log are the same for two owners that differ there.
theorem resolve_sees_directory (disk : Disk) (check : Check) (configuration : Configuration)
    (owner other : Uri) (written : Wording) :
    let directory := fun uri : Uri => uri.segments.tail.dropLast
    (directory owner = directory other →
      resolve disk check configuration owner written =
        resolve disk check configuration other written) ∧
    (configuration.strategy = .multiFolder →
      2 ≤ (directory owner).length → 2 ≤ (directory other).length →
      (∀ i, i ≠ 1 → (directory owner)[i]? = (directory other)[i]?) →
        resolve disk check configuration owner written =
          resolve disk check configuration other written) := by
  intro directory
  constructor
  · intro hsame
    refine resolve_congr_owner disk check configuration written ?_
    rw [innerSegments_eq, innerSegments_eq]
    exact hsame
  · intro hmulti hlong hother hsame
    have hlong : sourceFolder < ((directory owner).map Wording.text).length := by
      rwa [List.length_map]
    have hother : sourceFolder < ((directory other).map Wording.text).length := by
      rwa [List.length_map]
    have hset := set_eq_set_of_getElem? hlong hother fun i hi => by
      rw [List.getElem?_map, List.getElem?_map, hsame i hi]
    simp only [resolve, hmulti, innerSegments_eq]
    rw [tryFolders_congr_base disk check written _ hlong hother hset configuration.folderNames]

-- A check that knows one file, which is in another source folder than both owners below.
private def servedInGen : Check := fun wording =>
  ⟨.value (.bool (wording = .text "platform:/resource/proj/gen/api/b.proto".toList)), []⟩

theorem resolve_from_other_source_folder :
    let directory := fun uri : Uri => uri.segments.tail.dropLast
    let owner := Uri.parse "platform:/resource/proj/src/api/a.proto".toList
    let other := Uri.parse "file://host//home/proj/test/api/c.proto".toList
    let configuration : Configuration := ⟨.multiFolder, ["src".toList, "gen".toList].map .text⟩
    let written := Wording.text "b.proto".toList
    let found := resolve ⟨[], []⟩ servedInGen configuration other written
    directory owner = ["proj".toList, "src".toList, "api".toList] ∧
    directory other = ["proj".toList, "test".toList, "api".toList] ∧
    resolve ⟨[], []⟩ servedInGen configuration owner written = found ∧
    found.value = some (.text "platform:/resource/proj/gen/api/b.proto".toList) ∧
    found.asked = ["platform:/resource/proj/src/api/b.proto".toList,
      "platform:/resource/proj/gen/api/b.proto".toList].map .text := by
  intro directory owner other configuration written found
  have howner : directory owner = ["proj".toList, "src".toList, "api".toList] := by
    decide +kernel
  have hother : directory other = ["proj".toList, "test".toList, "api".toList] := by
    decide +kernel
  refine ⟨howner, hother, ?_, by decide +kernel, by decide +kernel⟩
  have hsame : ∀ i, i ≠ 1 → (directory owner)[i]? = (directory other)[i]? := by
    rw [howner, hother]
    intro i hi
    match i with
    | 0 => rfl
    | 1 => exact absurd rfl hi
    | _ + 2 => rfl
  exact (resolve_sees_directory ⟨[], []⟩ servedInGen configuration owner other written).2
    rfl (by decide +kernel) (by decide +kernel) hsame

end WorkspaceImports.Import

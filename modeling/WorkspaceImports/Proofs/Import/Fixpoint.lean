import WorkspaceImports.Proofs.Import.Candidate

namespace WorkspaceImports.Import

variable (disk : Disk) (check : Check) (configuration : Configuration) (owner : Uri)

-- Every candidate names its target by a scheme.
theorem isAbsolute_candidate (written : Wording) (first : Option Wording) (folder : List Wording) :
    isAbsolute (candidate written first folder) = true := by
  obtain ⟨path, hpath⟩ := exists_candidate_eq written first folder
  have hopening : (Wording.text Scheme.workspace.opening).isPrefixOf
      (Wording.text Scheme.workspace.opening ++ .char '/' :: path) = true := by
    rw [List.isPrefixOf_iff_prefix]
    exact List.prefix_append _ _
  rw [hpath, isAbsolute, hopening, Bool.or_true]

theorem fix_value (written : Wording) :
    (fix disk check configuration owner written).value =
      (resolve disk check configuration owner written).value.getD written := rfl

theorem fix_of_isAbsolute {written : Wording} (h : isAbsolute written = true) :
    (fix disk check configuration owner written).value = written ∧
      (fix disk check configuration owner written).asked = [] := by
  rw [fix, resolve_of_isAbsolute disk check configuration owner h]
  exact ⟨rfl, rfl⟩

-- So what an import is resolved to is no business of another resolution.
theorem isAbsolute_of_resolve {written wording : Wording}
    (h : (resolve disk check configuration owner written).value = some wording) :
    isAbsolute wording = true := by
  cases habsolute : isAbsolute written with
  | true =>
      rw [resolve_of_isAbsolute disk check configuration owner habsolute] at h
      rwa [← Option.some.inj h]
  | false =>
      rw [(resolve_spec disk check configuration owner written habsolute).1] at h
      obtain ⟨folder, rfl, -⟩ := mem_candidates (List.mem_of_find?_eq_some h)
      exact isAbsolute_candidate written _ folder

-- To fix what is fixed already changes nothing. Where the import was resolved, what replaces it is
-- settled for good: with any disk, check, configuration and owner it is resolved to itself, and the
-- check is asked nothing.
theorem fix_fix (disk : Disk) (check : Check) (configuration : Configuration) (owner : Uri)
    (written : Wording) :
    let fixed := (fix disk check configuration owner written).value
    (fix disk check configuration owner fixed).value = fixed ∧
    ((resolve disk check configuration owner written).value ≠ none →
      (resolve disk check configuration owner written).value = some fixed ∧
      ∀ (other : Disk) (second : Check) (elsewhere : Configuration) (importer : Uri),
        (resolve other second elsewhere importer fixed).value = some fixed ∧
        (resolve other second elsewhere importer fixed).asked = [] ∧
        (fix other second elsewhere importer fixed).value = fixed ∧
        (fix other second elsewhere importer fixed).asked = []) := by
  cases hfound : (resolve disk check configuration owner written).value with
  | none =>
      -- the second search fails like the first one
      simp only [fix_value, hfound, Option.getD_none, ne_eq, not_true_eq_false, false_implies,
        and_self]
  | some wording =>
      have habsolute := isAbsolute_of_resolve disk check configuration owner hfound
      simp only [fix_value disk check configuration owner written, hfound, Option.getD_some]
      refine ⟨(fix_of_isAbsolute disk check configuration owner habsolute).1,
        fun _ => ⟨trivial, fun other second elsewhere importer => ?_⟩⟩
      rw [resolve_of_isAbsolute other second elsewhere importer habsolute]
      exact ⟨rfl, rfl, fix_of_isAbsolute other second elsewhere importer habsolute⟩

-- A check that knows one file, and one that fails for every wording.
private def knowing (wording : Wording) : Check := fun asked =>
  ⟨.value (.bool (asked = wording)), []⟩

private def failing : Check := fun _ => ⟨.failure "workspace closed".toList, []⟩

theorem fix_fix_elsewhere :
    let owner := Uri.parse "platform:/resource/proj/src/a.proto".toList
    let target := Wording.text "platform:/resource/proj/gen/b.proto".toList
    let check := knowing target
    let configuration : Configuration := ⟨.multiFolder, ["src".toList, "gen".toList].map .text⟩
    let written := Wording.text "b.proto".toList
    let unknown := Wording.text "d.proto".toList
    let fixed := (fix ⟨[], []⟩ check configuration owner written).value
    (resolve ⟨[], []⟩ check configuration owner written).value ≠ none ∧
    fixed = target ∧
    (fix ⟨[], []⟩ failing ⟨.singleFolder, []⟩ (Uri.parse "c.proto".toList) fixed).value = fixed ∧
    (fix ⟨[], []⟩ failing ⟨.singleFolder, []⟩ (Uri.parse "c.proto".toList) fixed).asked = [] ∧
    (fix ⟨[], []⟩ check configuration owner unknown).value = unknown ∧
    (fix ⟨[], []⟩ check configuration owner
      (fix ⟨[], []⟩ check configuration owner unknown).value).value =
        (fix ⟨[], []⟩ check configuration owner unknown).value := by
  intro owner target check configuration written unknown fixed
  have hfound : (resolve ⟨[], []⟩ check configuration owner written).value ≠ none := by
    decide +kernel
  obtain ⟨-, hsettled⟩ := fix_fix ⟨[], []⟩ check configuration owner written
  obtain ⟨-, -, hvalue, hasked⟩ :=
    (hsettled hfound).2 ⟨[], []⟩ failing ⟨.singleFolder, []⟩ (Uri.parse "c.proto".toList)
  exact ⟨hfound, by decide +kernel, hvalue, hasked, by decide +kernel,
    (fix_fix ⟨[], []⟩ check configuration owner unknown).1⟩

end WorkspaceImports.Import

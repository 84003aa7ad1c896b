import WorkspaceImports.CommandLine.Run
import WorkspaceImports.Proofs.Import.FailedCheck
import WorkspaceImports.Proofs.Preferences.Fallback
import WorkspaceImports.Proofs.Workspace.RoundTrip

namespace WorkspaceImports

-- The preferences of an owner's project can be looked for, and what is there is readable. An owner
-- in no project needs none.
def Preferences.Loader.Answers (loader : Preferences.Loader) (disk : Disk) (owner : Uri) : Prop :=
  ∀ project, owner.project? = some project →
    (∃ found, disk.isFile? (loader.path project) = .ok found) ∧
      ∀ content, disk.read (loader.path project) = .ok content → Preferences.Readable content

theorem Source.exists_configurationFor_iff {loader : Preferences.Loader} {disk : Disk}
    {owner : Uri} :
    (∃ configuration,
      ((Source.preferences loader).configurationFor disk owner).value = .ok configuration) ↔
        loader.Answers disk owner := by
  unfold Source.configurationFor Preferences.Loader.Answers
  cases owner.project? with
  | none => simp
  | some project => simpa using Preferences.Loader.load_ok_iff

namespace CommandLine

-- The URI of an owner: its own text, or the way from the root to the place that its path leads to.
def StandsFor (workspace : Workspace) (disk : Disk) (owner text : Text) : Prop :=
  (Scheme.ofText owner = .workspace ∧ text = owner) ∨
    (Scheme.ofText owner ≠ .workspace ∧ ∃ path name names,
      disk.resolve (Path.ofText owner) = .ok path ∧
      workspace.root.below? path = some (name :: names) ∧
      text = Scheme.workspace.opening ++ '/' :: Text.join '/' (name :: names))

-- Whether a run comes to read the owner's configuration.
def Arguments.Asks (arguments : Arguments) : Prop :=
  arguments.imports ≠ [] ∨ ¬(arguments.strategy = none ∧ arguments.folders = .unset)

-- A configuration with what is given on the command line in the place of the same part.
def Arguments.override (arguments : Arguments) (loaded : Configuration) : Configuration :=
  { strategy := arguments.strategy.getD loaded.strategy
    folderNames :=
      match arguments.folders with
      | .unset => loaded.folderNames
      | .empty => []
      | .text list => (FolderNames.ofText list).map .text }

-- What replaces an import of a file whose URI has a text, as the workspace stands on the disk.
def replacement (workspace : Workspace) (disk : Disk) (text : Text) (configuration : Configuration)
    (written : Text) : Wording :=
  (Import.fix disk (workspace.check disk) configuration (Uri.parse text) (.text written)).value

def line (written : Text) (wording : Wording) : Wording :=
  .text written ++ .text " -> ".toList ++ wording ++ [.char '\n']

namespace Run

variable {settings : Settings} {disk : Disk} {arguments : Arguments} {workspace : Workspace}
  {owner text : Text}

theorem ownerUri_of_path (h : Scheme.ofText owner ≠ .workspace) :
    ownerUri workspace disk owner = workspace.uri? disk (Path.ofText owner) := by
  unfold ownerUri
  split
  · rename_i hscheme
    exact absurd hscheme h
  · rfl

theorem ownerUri_eq_some_iff :
    ownerUri workspace disk owner = .ok (some text) ↔ StandsFor workspace disk owner text := by
  by_cases hscheme : Scheme.ofText owner = .workspace
  · simp [ownerUri, StandsFor, hscheme, eq_comm]
  · rw [ownerUri_of_path hscheme, Workspace.uri?_eq_some_iff, StandsFor,
      or_iff_right fun h => hscheme h.1]
    exact (and_iff_right hscheme).symm

section Imports

variable (check : Check) {source : Source} {uri : Uri}

-- With a configuration each import has its line, whatever the check says.
theorem ofImports_of_configuration {configuration : Configuration}
    (h : (source.configurationFor disk uri).value = .ok configuration) (imports : List Text) :
    let run := ofImports ⟨check, source⟩ disk uri imports
    run.ending = .ok 0 ∧ run.fixed = imports.map fun written =>
      (written, (Import.fix disk check configuration uri (.text written)).value) := by
  induction imports with
  | nil => exact ⟨rfl, rfl⟩
  | cons written rest ih =>
      have hfix : ((Resolver.mk check source).fix disk uri (.text written)).value =
          .ok (Import.fix disk check configuration uri (.text written)).value := by
        rw [Resolver.fix_value, h]
        rfl
      simp only [ofImports, hfix, ih, List.map_cons, and_self]

-- Without one the first import ends the run.
theorem ofImports_of_failure {failure : Failure}
    (h : (source.configurationFor disk uri).value = .error failure) {imports : List Text}
    (hne : imports ≠ []) :
    let run := ofImports ⟨check, source⟩ disk uri imports
    run.ending = .error failure ∧ run.fixed = [] := by
  obtain ⟨written, rest, rfl⟩ := List.exists_cons_of_ne_nil hne
  have hfix : ((Resolver.mk check source).fix disk uri (.text written)).value =
      .error failure := by
    rw [Resolver.fix_value, h]
    rfl
  simp only [ofImports, hfix, and_self]

end Imports

section Sources

variable (arguments : Arguments) {loader : Preferences.Loader} {uri : Uri}

-- What is given on the command line changes the configuration and not whether there is one.
theorem sourceFor_of_configuration {loaded : Configuration}
    (h : ((Source.preferences loader).configurationFor disk uri).value = .ok loaded) :
    ∃ source, (sourceFor arguments loader disk uri).value = .ok source ∧
      (source.configurationFor disk uri).value = .ok (arguments.override loaded) := by
  unfold sourceFor
  split
  · rename_i hplain
    refine ⟨_, rfl, h.trans ?_⟩
    simp only [Arguments.override, hplain.1, hplain.2, Option.getD_none]
  · simp only [h]
    exact ⟨_, rfl, rfl⟩

theorem sourceFor_of_failure {failure : Failure}
    (h : ((Source.preferences loader).configurationFor disk uri).value = .error failure) :
    (sourceFor arguments loader disk uri).value =
      if arguments.strategy = none ∧ arguments.folders = .unset then .ok (.preferences loader)
      else .error failure := by
  unfold sourceFor
  split
  · rfl
  · simp only [h]

end Sources

section Owner

variable (settings : Settings)
  (howner : ownerUri workspace disk arguments.owner = .ok (some text))

include howner

-- The run of an owner that has a URI is that of its imports, once there is a source for the
-- configuration.
theorem inWorkspace_of_source {source : Source}
    (hsource : (sourceFor arguments ⟨workspace.root, settings.preferencesFile, settings.defaults⟩
      disk (Uri.parse text)).value = .ok source) :
    let run := ofImports ⟨workspace.check disk, source⟩ disk (Uri.parse text) arguments.imports
    (inWorkspace settings disk arguments workspace).ending = run.ending ∧
      (inWorkspace settings disk arguments workspace).fixed = run.fixed := by
  unfold inWorkspace
  simp only [howner]
  split
  · rename_i failure log hfailed
    rw [hfailed] at hsource
    cases hsource
  · rename_i found log hfound
    rw [hfound] at hsource
    cases hsource
    exact ⟨rfl, rfl⟩

theorem inWorkspace_of_failure {failure : Failure}
    (hsource : (sourceFor arguments ⟨workspace.root, settings.preferencesFile, settings.defaults⟩
      disk (Uri.parse text)).value = .error failure) :
    (inWorkspace settings disk arguments workspace).ending = .error failure ∧
      (inWorkspace settings disk arguments workspace).fixed = [] := by
  unfold inWorkspace
  simp only [howner]
  split
  · rename_i found log hfailed
    rw [hfailed] at hsource
    cases hsource
    exact ⟨rfl, rfl⟩
  · rename_i found log hfound
    rw [hfound] at hsource
    cases hsource

-- What a run leaves of an owner that has a URI: a line for each import, or nothing where the
-- configuration that it asks for is not to be had.
theorem inWorkspace_spec :
    let run := inWorkspace settings disk arguments workspace
    let loader := Preferences.Loader.mk workspace.root settings.preferencesFile settings.defaults
    let loading := ((Source.preferences loader).configurationFor disk (Uri.parse text)).value
    ((arguments.Asks → loader.Answers disk (Uri.parse text)) ∧ run.ending = .ok 0 ∧
        ∃ configuration,
          (∀ loaded, loading = .ok loaded → configuration = arguments.override loaded) ∧
          run.fixed = arguments.imports.map fun written =>
            (written, replacement workspace disk text configuration written)) ∨
      (¬(arguments.Asks → loader.Answers disk (Uri.parse text)) ∧ run.fixed = [] ∧
        ∃ failure, run.ending = .error failure) := by
  intro run loader loading
  cases hload : loading with
  | ok loaded =>
      have hanswers := Source.exists_configurationFor_iff.mp ⟨loaded, hload⟩
      obtain ⟨source, hsource, hchosen⟩ := sourceFor_of_configuration arguments hload
      obtain ⟨hending, hfixed⟩ := inWorkspace_of_source settings howner hsource
      obtain ⟨hserved, hlines⟩ :=
        ofImports_of_configuration (workspace.check disk) hchosen arguments.imports
      refine Or.inl ⟨fun _ => hanswers, hending.trans hserved, arguments.override loaded, ?_,
        hfixed.trans hlines⟩
      intro other hother
      rw [Except.ok.inj hother]
  | error failure =>
      have hunanswered : ¬loader.Answers disk (Uri.parse text) := by
        intro hanswers
        obtain ⟨configuration, hconfiguration⟩ := Source.exists_configurationFor_iff.mpr hanswers
        cases hload.symm.trans hconfiguration
      have hsource := sourceFor_of_failure arguments hload
      by_cases hplain : arguments.strategy = none ∧ arguments.folders = .unset
      · rw [if_pos hplain] at hsource
        obtain ⟨hending, hfixed⟩ := inWorkspace_of_source settings howner hsource
        by_cases hnone : arguments.imports = []
        · -- nothing is asked for, so nothing is missing
          have hasks : ¬arguments.Asks := fun hasks =>
            hasks.elim (fun hne => hne hnone) (fun hgiven => hgiven hplain)
          rw [hnone] at hending hfixed
          refine Or.inl ⟨fun h => absurd h hasks, hending, settings.defaults, by simp, ?_⟩
          rw [hnone]
          exact hfixed
        · obtain ⟨hfailed, hnothing⟩ :=
            ofImports_of_failure (workspace.check disk) hload hnone
          exact Or.inr ⟨fun h => hunanswered (h (Or.inl hnone)), hfixed.trans hnothing, failure,
            hending.trans hfailed⟩
      · rw [if_neg hplain] at hsource
        obtain ⟨hending, hfixed⟩ := inWorkspace_of_failure settings howner hsource
        exact Or.inr ⟨fun h => hunanswered (h (Or.inr hplain)), hfixed, failure, hending⟩

end Owner

theorem output_of_fixed {run : Run} {fix : Text → Wording} {imports : List Text}
    (h : run.fixed = imports.map fun written => (written, fix written)) :
    run.output = imports.flatMap fun written => line written (fix written) := by
  rw [output, h, List.flatMap_map]
  rfl

end Run

end CommandLine

end WorkspaceImports

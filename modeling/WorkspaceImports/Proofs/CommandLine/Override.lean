import WorkspaceImports.Proofs.CommandLine.Ending
import WorkspaceImports.Proofs.CommandLine.Switches

namespace WorkspaceImports.CommandLine

-- The loaded configuration with what arguments give in the place of the same part. Two dashes give
-- no strategy, and no folder names in the place of all.
structure Overrides (texts : List Text) (loaded configuration : Configuration) : Prop where
  strategy_kept : valueFor? .strategy texts = none → configuration.strategy = loaded.strategy
  strategy_given : ∀ name, valueFor? .strategy texts = some name → name ≠ "--".toList →
    configuration.strategy.name = name
  strategy_dashes : valueFor? .strategy texts = some "--".toList →
    configuration.strategy = loaded.strategy
  folders_kept : valueFor? .folders texts = none → configuration.folderNames = loaded.folderNames
  folders_given : ∀ list, valueFor? .folders texts = some list → list ≠ "--".toList →
    configuration.folderNames = (FolderNames.ofText list).map .text
  folders_dashes : valueFor? .folders texts = some "--".toList → configuration.folderNames = []

theorem Arguments.overrides_override {texts : List Text} {arguments : Arguments}
    (h : Arguments.ofTexts texts = .ok arguments) (loaded : Configuration) :
    Overrides texts loaded (arguments.override loaded) := by
  obtain ⟨hfolders, hstrategy, hnames⟩ := Arguments.given_of_ofTexts h
  have hdashes : Strategy.ofName? "--".toList = none := by decide +kernel
  constructor
  case strategy_kept =>
    intro hnone
    simp [override, hstrategy, hnone]
  case strategy_given =>
    intro name hname hne
    rcases hnames name hname with rfl | ⟨strategy, hvalid⟩
    · exact absurd rfl hne
    · simp [override, hstrategy, hname, hvalid, Strategy.name_of_ofName? hvalid]
  case strategy_dashes =>
    intro hname
    rw [override, hstrategy, hname, Option.bind_some, hdashes, Option.getD_none]
  case folders_kept =>
    intro hnone
    simp [override, hfolders, hnone]
  case folders_given =>
    intro list hlist hne
    have hne : list ≠ ['-', '-'] := hne
    simp [override, hfolders, hlist, Value.ofText, hne]
  case folders_dashes =>
    intro hlist
    rw [override, hfolders, hlist]
    rfl

namespace Run

variable {settings : Settings} {disk : Disk} {arguments : Arguments} {workspace : Workspace}
  {text : Text} {loaded : Configuration}

-- The configuration that is loaded for an owner whose URI has a text.
def loading (settings : Settings) (disk : Disk) (workspace : Workspace) (text : Text) :
    Except Failure Configuration :=
  let loader := ⟨workspace.root, settings.preferencesFile, settings.defaults⟩
  ((Source.preferences loader).configurationFor disk (Uri.parse text)).value

-- With a loaded configuration a run prints every import with what replaces it.
theorem output_of_loaded (hworkspace : workspaceFor settings disk arguments = .ok workspace)
    (howner : ownerUri workspace disk arguments.owner = .ok (some text))
    (hload : loading settings disk workspace text = .ok loaded) :
    (ofArguments settings disk arguments).output = arguments.imports.flatMap fun written =>
      line written (replacement workspace disk text (arguments.override loaded) written) := by
  simp only [ofArguments, hworkspace]
  rcases inWorkspace_spec settings howner with
    ⟨-, -, configuration, hchosen, hfixed⟩ | ⟨hunanswered, -⟩
  · rw [output_of_fixed hfixed, hchosen loaded hload]
  · exact absurd (fun _ => Source.exists_configurationFor_iff.mp ⟨loaded, hload⟩) hunanswered

theorem ownerUri_congr {owner spelling : Text} (howner : Scheme.ofText owner ≠ .workspace)
    (hspelling : Scheme.ofText spelling ≠ .workspace)
    (hsame : disk.resolve (Path.ofText spelling) = disk.resolve (Path.ofText owner)) :
    ownerUri workspace disk spelling = ownerUri workspace disk owner := by
  rw [ownerUri_of_path hspelling, ownerUri_of_path howner, Workspace.uri?, Workspace.uri?, hsame]

-- A path for an owner counts with the place that it leads to.
theorem output_congr_owner {spelling : Text} (howner : Scheme.ofText arguments.owner ≠ .workspace)
    (hspelling : Scheme.ofText spelling ≠ .workspace)
    (hsame : disk.resolve (Path.ofText spelling) = disk.resolve (Path.ofText arguments.owner)) :
    (ofArguments settings disk { arguments with owner := spelling }).output =
      (ofArguments settings disk arguments).output := by
  have hworkspace : workspaceFor settings disk { arguments with owner := spelling } =
      workspaceFor settings disk arguments := rfl
  unfold ofArguments
  rw [hworkspace]
  cases workspaceFor settings disk arguments with
  | error failure => rfl
  | ok workspace =>
      simp only [inWorkspace, ownerUri_congr howner hspelling hsame]
      cases ownerUri workspace disk arguments.owner with
      | error failure => rfl
      | ok found => cases found <;> rfl

-- The loaded strategy in the place of none leaves what is printed.
theorem output_of_loaded_strategy {texts more : List Text} {again : Arguments}
    (hworkspace : workspaceFor settings disk arguments = .ok workspace)
    (howner : ownerUri workspace disk arguments.owner = .ok (some text))
    (hload : loading settings disk workspace text = .ok loaded)
    (haccepted : Arguments.ofTexts texts = .ok arguments)
    (hmore : Arguments.ofTexts more = .ok again)
    (hagain : again = { arguments with strategy := again.strategy })
    (hunset : valueFor? .strategy texts = none)
    (hset : valueFor? .strategy more = some loaded.strategy.name) :
    (ofArguments settings disk again).output = (ofArguments settings disk arguments).output := by
  have hnone : arguments.strategy = none := by
    rw [(Arguments.given_of_ofTexts haccepted).2.1, hunset, Option.bind_none]
  have hstrategy : again.strategy = some loaded.strategy := by
    rw [(Arguments.given_of_ofTexts hmore).2.1, hset, Option.bind_some, Strategy.ofName?_name]
  let given := { arguments with strategy := some loaded.strategy }
  have hoverride : given.override loaded = arguments.override loaded := by
    simp only [given, Arguments.override, hnone, Option.getD_some, Option.getD_none]
  have hroot : workspaceFor settings disk given = .ok workspace := hworkspace
  rw [hagain, hstrategy, output_of_loaded hworkspace howner hload, ← hoverride]
  exact output_of_loaded hroot howner hload

theorem exists_owner_of_served (hserved : (ofArguments settings disk arguments).ending = .ok 0) :
    ∃ workspace owner, workspaceFor settings disk arguments = .ok workspace ∧
      ownerUri workspace disk arguments.owner = .ok (some owner) := by
  cases hworkspace : workspaceFor settings disk arguments with
  | error failure =>
      simp only [ofArguments, hworkspace] at hserved
      cases hserved
  | ok workspace =>
      simp only [ofArguments, hworkspace] at hserved
      cases howner : ownerUri workspace disk arguments.owner with
      | error failure =>
          simp only [inWorkspace, howner] at hserved
          cases hserved
      | ok found =>
          cases found with
          | none =>
              simp only [inWorkspace, howner] at hserved
              cases hserved
          | some owner => exact ⟨workspace, owner, rfl, howner⟩

-- What a run prints that ends with 0: every import in order, with what replaces it for the owner's
-- URI under the configuration loaded for it, in which the parts that are given on the command line
-- take the place of the loaded ones. So to give the strategy that is loaded changes nothing, nor
-- does another spelling of the owner's path.
theorem ofArguments_output (settings : Settings) (disk : Disk) {texts : List Text}
    {arguments : Arguments} (haccepted : Arguments.ofTexts texts = .ok arguments)
    (hserved : (ofArguments settings disk arguments).ending = .ok 0) :
    let printed := fun given => (ofArguments settings disk given).output
    ∃ workspace owner, workspaceFor settings disk arguments = .ok workspace ∧
      StandsFor workspace disk arguments.owner owner ∧
      let found := loading settings disk workspace owner
      (arguments.imports ≠ [] → ∃ loaded, found = .ok loaded) ∧
      (∃ configuration, (∀ loaded, found = .ok loaded → Overrides texts loaded configuration) ∧
        printed arguments = arguments.imports.flatMap fun written =>
          line written (replacement workspace disk owner configuration written)) ∧
      (∀ loaded more again, found = .ok loaded → Arguments.ofTexts more = .ok again →
        again = { arguments with strategy := again.strategy } →
        valueFor? .strategy texts = none →
        valueFor? .strategy more = some loaded.strategy.name →
          printed again = printed arguments) ∧
      ∀ more again, Arguments.ofTexts more = .ok again →
        again = { arguments with owner := again.owner } →
        Scheme.ofText arguments.owner ≠ .workspace → Scheme.ofText again.owner ≠ .workspace →
        disk.resolve (Path.ofText again.owner) = disk.resolve (Path.ofText arguments.owner) →
          printed again = printed arguments := by
  intro printed
  obtain ⟨workspace, owner, hworkspace, howner⟩ := exists_owner_of_served hserved
  have hrun : ofArguments settings disk arguments =
      inWorkspace settings disk arguments workspace := by
    simp only [ofArguments, hworkspace]
  refine ⟨workspace, owner, hworkspace, ownerUri_eq_some_iff.mp howner, ?_⟩
  rcases inWorkspace_spec settings howner with
    ⟨hanswers, -, configuration, hchosen, hfixed⟩ | ⟨-, -, failure, hfailed⟩
  · refine ⟨fun hne => ?_, ⟨configuration, fun loaded hload => ?_, ?_⟩, ?_, ?_⟩
    · exact Source.exists_configurationFor_iff.mpr (hanswers (Or.inl hne))
    · rw [hchosen loaded hload]
      exact Arguments.overrides_override haccepted loaded
    · simp only [printed, hrun]
      exact output_of_fixed hfixed
    · intro loaded more again hload hmore hagain hunset hset
      exact output_of_loaded_strategy hworkspace howner hload haccepted hmore hagain hunset hset
    · intro more again _ hagain hpath hspelling hsame
      rw [hagain]
      exact output_congr_owner hpath hspelling hsame
  · rw [hrun, hfailed] at hserved
    cases hserved

-- A project with preferences for several folders, one of which is named by two dashes.
private def foldersDisk : Disk := {
  entries := [("ws".toList, .folder [("p".toList, .folder [
    (".settings".toList, .folder [("proto_paths.json".toList,
      .file (Utf8.encode "\x7b\"strategy\": \"MULTI_FOLDER\"\x7d".toList))]),
    ("gen".toList, .folder [("b.proto".toList, .file [])]),
    ("--".toList, .folder [("b.proto".toList, .file [])])])])]
  here := [] }

private def bareSettings : Settings :=
  ⟨⟨.root, []⟩, "proto_paths.json".toList, ⟨.singleFolder, []⟩, .info⟩

private def namingFolders (owner : Text) (strategy : Option Strategy) : Arguments :=
  ⟨owner, ["b.proto".toList], .text "ws".toList, strategy, .text "src,gen".toList, false⟩

theorem ofArguments_output_unchanged :
    let accepted := fun texts : List String => Arguments.ofTexts (texts.map String.toList)
    let arguments := namingFolders "ws/p/src/a.proto".toList none
    let printed := fun given => (ofArguments bareSettings foldersDisk given).output
    accepted ["--workspace", "ws", "--folders=src,gen", "ws/p/src/a.proto", "b.proto"] =
      .ok arguments ∧
    (ofArguments bareSettings foldersDisk arguments).ending = .ok 0 ∧
    printed arguments = .text "b.proto -> platform:/resource/p/gen/b.proto\n".toList ∧
    printed (namingFolders "ws/p/src/a.proto".toList (some .multiFolder)) = printed arguments ∧
    printed (namingFolders "ws//p/x/../src/./a.proto".toList none) = printed arguments := by
  intro accepted arguments printed
  let shorter := ["--workspace", "ws", "--folders=src,gen", "ws/p/src/a.proto", "b.proto"]
  have haccepted : accepted shorter = .ok arguments := by decide +kernel
  have hserved : (ofArguments bareSettings foldersDisk arguments).ending = .ok 0 := by
    decide +kernel
  obtain ⟨workspace, owner, hworkspace, howner, -, -, hstrategy, hspelling⟩ :=
    ofArguments_output bareSettings foldersDisk haccepted hserved
  refine ⟨haccepted, hserved, by decide +kernel, ?_, ?_⟩
  · have hroot :
        workspaceFor bareSettings foldersDisk arguments = .ok ⟨⟨.root, ["ws".toList]⟩⟩ := by
      decide +kernel
    cases hworkspace.symm.trans hroot
    have huri : ownerUri ⟨⟨.root, ["ws".toList]⟩⟩ foldersDisk arguments.owner =
        .ok (some "platform:/resource/p/src/a.proto".toList) := by
      decide +kernel
    cases (ownerUri_eq_some_iff.mpr howner).symm.trans huri
    exact hstrategy ⟨.multiFolder, []⟩
      ((shorter ++ ["--strategy", "MULTI_FOLDER"]).map String.toList)
      (namingFolders "ws/p/src/a.proto".toList (some .multiFolder)) (by decide +kernel)
      (by decide +kernel) rfl (by decide +kernel) (by decide +kernel)
  · exact hspelling
      (["--workspace", "ws", "--folders=src,gen", "ws//p/x/../src/./a.proto", "b.proto"].map
        String.toList)
      (namingFolders "ws//p/x/../src/./a.proto".toList none) (by decide +kernel) rfl
      (by decide +kernel) (by decide +kernel) (by decide +kernel)

-- Two dashes are no folder name: the folder that has it is not looked in, though it is given, and
-- the import stays as it is. Nor are they refused as the name of a strategy.
theorem ofArguments_dashed_folders :
    let texts := fun folders : String => ["--workspace", "ws", folders,
      "platform:/resource/p/src/a.proto", "b.proto"].map String.toList
    let printed := fun texts : List Text => (Arguments.ofTexts texts).map fun arguments =>
      ((ofArguments bareSettings foldersDisk arguments).output,
        (ofArguments bareSettings foldersDisk arguments).ending)
    let given : Configuration := ⟨.multiFolder, (FolderNames.ofText "--".toList).map .text⟩
    valueFor? .folders (texts "--folders=--") = some "--".toList ∧
    printed (texts "--folders=--") = .ok (.text "b.proto -> b.proto\n".toList, .ok 0) ∧
    replacement ⟨⟨.root, ["ws".toList]⟩⟩ foldersDisk "platform:/resource/p/src/a.proto".toList given
      "b.proto".toList = .text "platform:/resource/p/--/b.proto".toList ∧
    printed (texts "--folders=--,") =
      .ok (.text "b.proto -> platform:/resource/p/--/b.proto\n".toList, .ok 0) ∧
    valueFor? .strategy (texts "--strategy=--") = some "--".toList ∧
    (Arguments.ofTexts (texts "--strategy=--")).map Arguments.strategy = .ok none := by
  decide +kernel

end Run

end WorkspaceImports.CommandLine

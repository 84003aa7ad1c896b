import WorkspaceImports.Proofs.Configuration.Format
import WorkspaceImports.Settings

namespace WorkspaceImports

theorem Strategy.ofName?_eq_none_iff {name : Text} :
    ofName? name = none ↔ name ∉ ["SINGLE_FOLDER".toList, "MULTI_FOLDER".toList] := by
  have hnames : ["SINGLE_FOLDER".toList, "MULTI_FOLDER".toList] = all.map Strategy.name := rfl
  rw [hnames, ofName?, List.find?_eq_none, List.mem_map]
  simp

namespace Configuration

variable {text : Text} {configuration : Configuration}

-- A setting that stands alone is read, and the other one is standard.
theorem ofJson_strategy : ofJson (.object [("fileResolutionType".toList, .text text)]) =
    .ok configuration ↔ ∃ strategy, Strategy.ofText? text = some strategy ∧
      configuration = ⟨strategy, []⟩ := by
  obtain ⟨strategy, names⟩ := configuration
  have hgiven : strategyIn [("fileResolutionType".toList, .text text)] =
      some ("fileResolutionType".toList, .text text) := rfl
  have hnone : foldersIn [("fileResolutionType".toList, .text text)] = none := rfl
  rw [ofJson_object_eq_ok_iff, strategyOf_eq, folderNamesOf_eq, hgiven, hnone]
  cases hword : Strategy.ofText? text <;> simp [settle, readStrategy, hword, eq_comm]

theorem ofJson_folderNames (text : Text) :
    ofJson (.object [("folderNames".toList, .text text)]) =
      .ok ⟨.singleFolder, (FolderNames.ofText text).map .text⟩ :=
  ofJson_object_eq_ok_iff.mpr ⟨rfl, rfl⟩

theorem ofJson_fields (strategy : Strategy) (names : List Text) :
    ofJson (.object [("strategy".toList, .text strategy.name),
      ("folder_names".toList, .array (names.map .text))]) = .ok ⟨strategy, names.map .text⟩ := by
  refine ofJson_object_eq_ok_iff.mpr ⟨?_, readItems_texts _ names⟩
  change readStrategy _ (.text strategy.name) = .ok strategy
  simp only [readStrategy, Strategy.ofText?_name]

end Configuration

namespace Environment

-- The word for the strategy as the environment gives it, or the standard one if it is none of those
-- there are.
def word (environment : Environment) : Text :=
  let word := Text.upper (Text.trim (environment.fileResolution.getD "SINGLE_FOLDER".toList))
  if word ∈ ["SINGLE_FOLDER".toList, "MULTI_FOLDER".toList] then word else "SINGLE_FOLDER".toList

def names (environment : Environment) : List Text :=
  FolderNames.ofText (environment.folderNames.getD [])

-- The defaults as they are built: what the environment gives goes through the format of a
-- configuration, which looks at each setting once more.
def validated (environment : Environment) : Except Invalid Configuration :=
  Configuration.ofJson (.object [("strategy".toList, .text environment.word),
    ("folder_names".toList, .array (environment.names.map .text))])

-- The words that the environment knows are the names of the strategies.
theorem word_eq (environment : Environment) : environment.word = environment.strategy.name := by
  unfold word strategy
  cases environment.fileResolution with
  | none => decide +kernel
  | some text =>
      simp only [Option.getD_some, Option.bind_some, Strategy.ofText?]
      generalize Text.upper (Text.trim text) = word
      cases hname : Strategy.ofName? word with
      | none =>
          rw [if_neg (Strategy.ofName?_eq_none_iff.mp hname)]
          rfl
      | some strategy =>
          have hknown : word ∈ ["SINGLE_FOLDER".toList, "MULTI_FOLDER".toList] := by
            apply Classical.byContradiction
            intro hunknown
            rw [Strategy.ofName?_eq_none_iff.mpr hunknown] at hname
            cases hname
          rw [if_pos hknown, Option.getD_some, Strategy.name_of_ofName? hname]

theorem validated_eq (environment : Environment) :
    environment.validated = .ok environment.configuration := by
  rw [validated, word_eq, Configuration.ofJson_fields]
  rfl

-- What the environment says is read as preferences are that say it. The defaults can always be
-- built: a strategy that preferences would be refused for is passed over, and any text is a list of
-- folder names.
theorem configuration_reads_alike (environment : Environment) :
    let ofStrategy (text : Text) :=
      Configuration.ofJson (.object [("fileResolutionType".toList, .text text)])
    let ofFolderNames (text : Text) :=
      Configuration.ofJson (.object [("folderNames".toList, .text text)])
    environment.validated = .ok environment.configuration ∧
    (∀ text given, environment.fileResolution = some text → ofStrategy text = .ok given →
      environment.configuration.strategy = given.strategy) ∧
    ((∀ text given, environment.fileResolution = some text → ofStrategy text ≠ .ok given) →
      environment.configuration.strategy = .singleFolder) ∧
    (∀ text, environment.folderNames = some text → ∃ given, ofFolderNames text = .ok given ∧
      environment.configuration.folderNames = given.folderNames) ∧
    (environment.folderNames = none → environment.configuration.folderNames = []) ∧
    ∀ disk settings, Settings.read environment disk = .ok settings →
      settings.defaults = environment.configuration := by
  intro ofStrategy ofFolderNames
  refine ⟨environment.validated_eq, ?_, ?_, ?_, ?_, ?_⟩
  · intro text given hset hread
    obtain ⟨strategy, hword, rfl⟩ := Configuration.ofJson_strategy.mp hread
    simp [configuration, Environment.strategy, hset, hword]
  · intro hrefused
    cases hset : environment.fileResolution with
    | none => simp [configuration, strategy, hset]
    | some text =>
        cases hword : Strategy.ofText? text with
        | none => simp [configuration, strategy, hset, hword]
        | some strategy =>
            exact absurd (Configuration.ofJson_strategy.mpr ⟨strategy, hword, rfl⟩)
              (hrefused text _ hset)
  · intro text hset
    exact ⟨_, Configuration.ofJson_folderNames text, by simp [configuration, hset]⟩
  · intro hnone
    simp only [configuration, hnone]
    rfl
  · intro disk settings hread
    unfold Settings.read at hread
    split at hread
    · cases hread
    · cases hread
      rfl

-- A character whose upper case is ASCII counts as that one.
example : (Environment.mk none none (some "\u2003multı_folder\x1f".toList) none none).strategy =
    .multiFolder := by
  decide +kernel

end Environment

end WorkspaceImports

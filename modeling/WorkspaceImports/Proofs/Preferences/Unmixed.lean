import WorkspaceImports.Proofs.Configuration.Format
import WorkspaceImports.Proofs.Preferences.Fallback
import WorkspaceImports.Proofs.Preferences.Place
import WorkspaceImports.Settings

namespace WorkspaceImports.Preferences

variable {disk : Disk} {path : Path} {configuration : Configuration}

theorem load_eq_ok_iff : load disk path = .ok configuration ↔
    ∃ content, disk.read path = .ok content ∧ ofBytes path content = .ok configuration := by
  unfold load
  cases disk.read path with
  | ok content => simp
  | error failure => cases failure <;> simp

-- Preferences that cannot be used are named with the path that they were looked for at.
theorem path_of_load {other : Path} {problem : Problem}
    (h : load disk path = .error (.preferences other problem)) : other = path := by
  unfold load at h
  split at h
  · cases h
    rfl
  · cases h
  · unfold ofBytes at h
    split at h
    · cases h
    · dsimp only at h
      split at h
      · cases h
        rfl
      · cases h
      · cases h
      · split at h <;> cases h
        rfl
      · cases h
        rfl

namespace Loader

variable {loader : Loader} {project : Text}

theorem load_eq_of_ok (h : Preferences.load disk (loader.path project) = .ok configuration) :
    loader.load disk project = ⟨.ok configuration, []⟩ := by
  obtain ⟨content, hread, -⟩ := load_eq_ok_iff.mp h
  have hfile := Disk.isFile?_eq_true_iff_read.mpr ⟨content, hread⟩
  simp only [load, hfile, h]

theorem load_eq_of_unusable {problem : Problem}
    (hfile : disk.isFile? (loader.path project) = .ok true)
    (hload : Preferences.load disk (loader.path project) =
      .error (.preferences (loader.path project) problem)) :
    loader.load disk project = ⟨.ok loader.defaults,
      [.preferencesUnusable (.preferences (loader.path project) problem) project]⟩ := by
  simp only [load, hfile, hload]

theorem load_eq_of_no_file (hfile : disk.isFile? (loader.path project) = .ok false) :
    loader.load disk project = ⟨.ok loader.defaults, []⟩ := by
  simp only [load, hfile]

-- A project has a configuration in three cases: its preferences are read, or they are there and
-- cannot be used, or there are none.
theorem load_cases (h : (loader.load disk project).value = .ok configuration) :
    Preferences.load disk (loader.path project) = .ok configuration ∨
      (disk.isFile? (loader.path project) = .ok true ∧
        ∃ problem, Preferences.load disk (loader.path project) =
          .error (.preferences (loader.path project) problem)) ∨
      disk.isFile? (loader.path project) = .ok false := by
  cases hfile : disk.isFile? (loader.path project) with
  | error failure =>
      simp only [load, hfile] at h
      cases h
  | ok found =>
      cases found with
      | false => exact Or.inr (Or.inr rfl)
      | true =>
          simp only [load, hfile] at h
          split at h
          · rename_i path problem hload
            exact Or.inr (Or.inl ⟨rfl, problem, path_of_load hload ▸ hload⟩)
          · exact Or.inl h

-- A configuration that the preferences of a project say. They say it whatever the defaults are,
-- given ones or those of an environment, and what they leave out is standard.
structure FromPreferences (loader : Loader) (disk : Disk) (project : Text)
    (configuration : Configuration) : Prop where
  isFile : disk.isFile? (loader.path project) = .ok true
  load_eq : Preferences.load disk (loader.path project) = .ok configuration
  log_eq : (loader.load disk project).log = []
  whatever_defaults : ∀ (environment : Environment) (given : Option Configuration),
    environment.preferencesFile.getD "proto_paths.json".toList = loader.fileName →
      let other : Loader := ⟨loader.root,
        environment.preferencesFile.getD "proto_paths.json".toList,
        given.getD environment.configuration⟩
      other.load disk project = ⟨.ok configuration, []⟩
  standard_where_left_out : ∃ text members,
    disk.read (loader.path project) = .ok (Utf8.encode text) ∧
    Json.Reader.read (Text.unifyNewlines text) = .ok (.object members) ∧
    ((∀ name ∈ ["fileResolutionType", "strategy"], Json.member? name.toList members = none) →
      configuration.strategy = .singleFolder) ∧
    ((∀ name ∈ ["folderNames", "folder_names"], Json.member? name.toList members = none) →
      configuration.folderNames = [])

-- The defaults, because there is no file or, with one warning, because it cannot be used. They hold
-- whatever another file says, if it does not count either.
structure FromDefaults (loader : Loader) (disk : Disk) (project : Text)
    (configuration : Configuration) : Prop where
  eq_defaults : configuration = loader.defaults
  reason :
    (disk.isFile? (loader.path project) = .ok true ∧ ∃ problem,
      Preferences.load disk (loader.path project) =
        .error (.preferences (loader.path project) problem) ∧
      (loader.load disk project).log =
        [.preferencesUnusable (.preferences (loader.path project) problem) project] ∧
      (loader.load disk project).log.map Event.level = [.warning]) ∨
    (disk.isFile? (loader.path project) = .ok false ∧ (loader.load disk project).log = [])
  whatever_content : ∀ other found, (loader.load other project).value = .ok found →
    (∀ said, Preferences.load other (loader.path project) ≠ .ok said) → found = configuration

theorem fromPreferences_of_load
    (hload : Preferences.load disk (loader.path project) = .ok configuration) :
    loader.FromPreferences disk project configuration := by
  obtain ⟨content, hread, hbytes⟩ := load_eq_ok_iff.mp hload
  obtain ⟨text, members, rfl, hobject, hvalid⟩ := ofBytes_eq_ok_iff.mp hbytes
  obtain ⟨hstrategy, hfolders⟩ := Configuration.standard_of_left_out hvalid
  constructor
  case isFile => exact Disk.isFile?_eq_true_iff_read.mpr ⟨_, hread⟩
  case load_eq => exact hload
  case log_eq => rw [load_eq_of_ok hload]
  case whatever_defaults =>
    intro environment given hname other
    have hpath : other.path project = loader.path project := by
      simp only [other, Loader.path, hname]
    exact load_eq_of_ok (hpath ▸ hload)
  case standard_where_left_out =>
    refine ⟨text, members, hread, hobject, fun hout => hstrategy ?_, fun hout => hfolders ?_⟩
    · exact Json.memberOf?_eq_none_iff.mpr ⟨hout _ (by simp), hout _ (by simp)⟩
    · exact Json.memberOf?_eq_none_iff.mpr ⟨hout _ (by simp), hout _ (by simp)⟩

theorem eq_defaults_of_unsaid {found : Configuration}
    (h : (loader.load disk project).value = .ok found)
    (hunsaid : ∀ said, Preferences.load disk (loader.path project) ≠ .ok said) :
    found = loader.defaults :=
  (load_value_ok found h).resolve_left (hunsaid found)

-- What a project has is all that its preferences say or all of the defaults. Nothing is taken from
-- the one and something else from the other.
theorem load_unmixed {disk : Disk} {loader : Loader} {project : Text}
    {configuration : Configuration} (h : (loader.load disk project).value = .ok configuration) :
    loader.FromPreferences disk project configuration ∨
      loader.FromDefaults disk project configuration := by
  rcases load_cases h with hload | ⟨hfile, problem, hload⟩ | hfile
  · exact Or.inl (fromPreferences_of_load hload)
  · have hloaded := load_eq_of_unusable hfile hload
    rw [hloaded] at h
    cases h
    refine Or.inr ⟨rfl, Or.inl ⟨hfile, problem, hload, ?_, ?_⟩, fun _ _ => eq_defaults_of_unsaid⟩
    · rw [hloaded]
    · rw [hloaded]
      rfl
  · have hloaded := load_eq_of_no_file hfile
    rw [hloaded] at h
    cases h
    refine Or.inr ⟨rfl, Or.inr ⟨hfile, ?_⟩, fun _ _ => eq_defaults_of_unsaid⟩
    rw [hloaded]

-- A project with preferences that leave out the strategy, and one with broken preferences.
private def partialDisk : Disk :=
  let project := fun name content => (name, Node.folder [(".settings".toList, .folder [
    ("proto_paths.json".toList, .file (Utf8.encode content))])])
  { entries := [project "p".toList "\x7b\"folderNames\": [\"gen\"]\x7d".toList,
      project "q".toList "\x7boops".toList]
    here := [] }

private def elsewhere : Environment :=
  ⟨none, some "proto_paths.json".toList, some "multi_folder".toList, some "src,test".toList, none⟩

theorem load_unmixed_partial :
    let loader := usual ⟨.root, []⟩ ⟨.multiFolder, [.text "src".toList]⟩
    let configuration : Configuration := ⟨.singleFolder, [.text "gen".toList]⟩
    (loader.load partialDisk "p".toList).value = .ok configuration ∧
    elsewhere.configuration = ⟨.multiFolder, [.text "src".toList, .text "test".toList]⟩ ∧
    (usual ⟨.root, []⟩ elsewhere.configuration).load partialDisk "p".toList =
      ⟨.ok configuration, []⟩ ∧
    (loader.load partialDisk "q".toList).value = .ok loader.defaults ∧
    (loader.load partialDisk "q".toList).log.map Event.level = [.warning] := by
  intro loader configuration
  have hpartial : (loader.load partialDisk "p".toList).value = .ok configuration := by
    decide +kernel
  have hbroken : (loader.load partialDisk "q".toList).value = .ok loader.defaults := by
    decide +kernel
  have hthere : partialDisk.isFile? (loader.path "q".toList) = .ok true := by decide +kernel
  have hunusable : Preferences.load partialDisk (loader.path "q".toList) ≠ .ok loader.defaults := by
    decide +kernel
  refine ⟨hpartial, by decide +kernel, ?_, hbroken, ?_⟩
  · rcases load_unmixed hpartial with hsaid | hdefaulted
    · exact hsaid.whatever_defaults elsewhere none rfl
    · exact absurd hdefaulted.eq_defaults (by decide)
  · rcases load_unmixed hbroken with hsaid | hdefaulted
    · exact absurd hsaid.load_eq hunusable
    · rcases hdefaulted.reason with ⟨-, -, -, -, hlevel⟩ | ⟨hfile, -⟩
      · exact hlevel
      · cases hthere.symm.trans hfile

end Loader

end WorkspaceImports.Preferences

import WorkspaceImports.Preferences
import WorkspaceImports.Proofs.Disk.Walk
import WorkspaceImports.Proofs.Text.Utf8

namespace WorkspaceImports.Preferences

-- A content says something if it is the UTF-8 of an object that describes a configuration.
theorem ofBytes_eq_ok_iff {path : Path} {content : List UInt8} {configuration : Configuration} :
    ofBytes path content = .ok configuration ↔
      ∃ text members, content = Utf8.encode text ∧
        Json.Reader.read (Text.unifyNewlines text) = .ok (.object members) ∧
        Configuration.ofJson (.object members) = .ok configuration := by
  constructor
  · intro h
    unfold ofBytes at h
    cases hdecode : Utf8.decode content with
    | error invalid => simp [hdecode] at h
    | ok text =>
        simp only [hdecode] at h
        cases hread : Json.Reader.read (Text.unifyNewlines text) with
        | error stop => cases stop <;> simp [hread] at h
        | ok json =>
            cases json with
            | object members =>
                cases hvalid : Configuration.ofJson (.object members) with
                | ok found =>
                    have hfound : found = configuration := by simpa [hread, hvalid] using h
                    exact ⟨text, members, Utf8.decode_eq_ok_iff.mp hdecode, hread,
                      hfound ▸ hvalid⟩
                | error invalid => simp [hread, hvalid] at h
            | _ => simp [hread] at h
  · rintro ⟨text, members, rfl, hread, hvalid⟩
    simp [ofBytes, Utf8.decode_encode, hread, hvalid]

-- What a content says is not a matter of where it stands.
theorem ofBytes_eq_ok {path : Path} {content : List UInt8} {configuration : Configuration}
    (h : ofBytes path content = .ok configuration) (other : Path) :
    ofBytes other content = .ok configuration :=
  ofBytes_eq_ok_iff.mpr (ofBytes_eq_ok_iff.mp h)

-- Some content says something else than the defaults do.
theorem exists_content (defaults : Configuration) : ∃ content configuration,
    configuration ≠ defaults ∧ ∀ path, ofBytes path content = .ok configuration := by
  by_cases hdefaults : defaults = .standard
  · subst hdefaults
    have hmulti : ofBytes ⟨.root, []⟩ (Utf8.encode
        "\x7b\"strategy\": \"MULTI_FOLDER\"\x7d".toList) = .ok ⟨.multiFolder, []⟩ := by
      decide +kernel
    exact ⟨_, _, by decide, ofBytes_eq_ok hmulti⟩
  · have hempty : ofBytes ⟨.root, []⟩ (Utf8.encode "\x7b\x7d".toList) = .ok .standard := by
      decide +kernel
    exact ⟨_, _, Ne.symm hdefaults, ofBytes_eq_ok hempty⟩

namespace Loader

variable {disk other : Disk} {loader : Loader} {project : Text}

-- The loader that looks for preferences files under their usual name.
def usual (root : Path) (defaults : Configuration) : Loader :=
  ⟨root, "proto_paths.json".toList, defaults⟩

-- The names on the way from a project to its preferences file.
def way : List Text := [".settings".toList, "proto_paths.json".toList]

theorem isName_of_mem_way {name : Text} (h : name ∈ way) : Disk.IsName name := by
  rcases List.mem_cons.mp h with rfl | h
  · exact ⟨by decide, by decide, by decide, by decide⟩
  · obtain rfl := List.mem_singleton.mp h
    exact ⟨by decide, by decide, by decide, by decide⟩

-- A project's preferences file as seen from the workspace root. A project that is a single dot is
-- the root itself.
theorem usual_path (root : Path) (defaults : Configuration) (hne : project ≠ [])
    (hslash : '/' ∉ project) :
    (usual root defaults).path project =
      ⟨root.anchor, root.names ++ ([project].filter (· ≠ ['.']) ++ way)⟩ := by
  have hsettings : Path.ofText settingsFolder = ⟨.here, [".settings".toList]⟩ := by decide
  have hfile : Path.ofText "proto_paths.json".toList = ⟨.here, ["proto_paths.json".toList]⟩ := by
    decide
  simp only [path, usual, way, Path.ofText_segment hne hslash, hsettings, hfile, Path.join,
    List.append_assoc, List.singleton_append]

theorem usual_hasNull_eq_false_iff (root : Path) (defaults : Configuration) {segment : Text}
    (hne : segment ≠ []) (hslash : '/' ∉ segment) :
    ((usual root defaults).path segment).hasNull = false ↔
      (∀ name ∈ root.names, '\x00' ∉ name) ∧ '\x00' ∉ segment := by
  have hway : ∀ name ∈ way, '\x00' ∉ name := fun _ hmem => (isName_of_mem_way hmem).noNull
  rw [usual_path root defaults hne hslash, Path.hasNull_eq_false_iff, List.forall_mem_append,
    List.forall_mem_append, and_iff_left hway, Path.forall_mem_filter_iff (by decide),
    List.forall_mem_singleton]

-- A project's configuration depends on what is found at its preferences file and on nothing else.
theorem load_congr (h : disk.find (loader.path project) = other.find (loader.path project)) :
    loader.load disk project = loader.load other project := by
  simp only [load, Preferences.load, Disk.isFile?, Disk.test, Disk.read, h]

theorem load_of_hasNull (h : (loader.path project).hasNull = true) :
    (loader.load disk project).value = .ok loader.defaults := by
  simp [load, Disk.isFile?, Disk.test, h]

-- Where there is no file, the defaults hold, if the system takes the path.
theorem load_of_no_file
    (h : ∀ content, disk.find (loader.path project) ≠ .ok (.file content)) :
    (loader.load disk project).value = .ok loader.defaults ∨
      (loader.load disk project).value =
        .error (.disk (.refused .nameTooLong (loader.path project))) := by
  cases hnull : (loader.path project).hasNull with
  | true => exact Or.inl (load_of_hasNull hnull)
  | false =>
      cases hfind : disk.find (loader.path project) with
      | error refusal => cases refusal <;> simp [load, Disk.isFile?, Disk.test, hnull, hfind]
      | ok entry =>
          cases entry with
          | file content => exact absurd hfind (h content)
          | link target => simp [load, Disk.isFile?, Disk.test, hnull, hfind]
          | folder => simp [load, Disk.isFile?, Disk.test, hnull, hfind]

-- Where there is one, its configuration holds, if the system takes the path.
theorem load_of_file {content : List UInt8} {configuration : Configuration}
    (hnull : (loader.path project).hasNull = false)
    (hfind : disk.find (loader.path project) = .ok (.file content) ∨
      disk.find (loader.path project) = .error .nameTooLong)
    (hcontent : ∀ path, ofBytes path content = .ok configuration) :
    (loader.load disk project).value = .ok configuration ∨
      (loader.load disk project).value =
        .error (.disk (.refused .nameTooLong (loader.path project))) := by
  rcases hfind with hfind | hfind
  · simp [load, Preferences.load, Disk.isFile?, Disk.test, Disk.read, hnull, hfind, hcontent]
  · simp [load, Disk.isFile?, Disk.test, hnull, hfind]

end Loader

end WorkspaceImports.Preferences

import WorkspaceImports.Preferences
import WorkspaceImports.Proofs.Disk.Locate
import WorkspaceImports.Proofs.Json.Depth
import WorkspaceImports.Proofs.Text.Utf8

namespace WorkspaceImports.Preferences

open Json.Reader (digitLimit depthLimit openings)

-- The bytes of a text that is read to its end or to a fault in it, within all limits.
def Readable (content : List UInt8) : Prop :=
  ∃ text, content = Utf8.encode text ∧
    ∀ stop, Json.Reader.read (Text.unifyNewlines text) = .error stop →
      ∃ fault left, stop = .malformed fault left

-- A configuration, or the failure of preferences that cannot be used.
def Answered (answer : Except Failure Configuration) : Prop :=
  (∃ configuration, answer = .ok configuration) ∨
    ∃ path problem, answer = .error (.preferences path problem)

-- Where containers are opened seldom enough and numbers are short enough, no limit is met.
theorem readable_encode {text : Text} (hopenings : openings (Text.unifyNewlines text) ≤ depthLimit)
    (hdigits : ∀ run, run <:+: Text.unifyNewlines text → (∀ c ∈ run, c.isDigit = true) →
      run.length ≤ digitLimit) : Readable (Utf8.encode text) := by
  refine ⟨text, rfl, ?_⟩
  intro stop hstop
  have hexplained := Json.Reader.read_error hstop
  cases stop with
  | malformed fault left => exact ⟨fault, left, rfl⟩
  | hugeInteger digits =>
      obtain ⟨hlimit, run, hrun, rfl, hall⟩ := hexplained
      have hshort := hdigits run hrun hall
      omega
  | tooDeep container =>
      simp only [Json.Reader.Stop.Explained] at hexplained
      omega

theorem readable_iff {content : List UInt8} {text : Text} (h : Utf8.decode content = .ok text) :
    Readable content ↔ ∀ stop, Json.Reader.read (Text.unifyNewlines text) = .error stop →
      ∃ fault left, stop = .malformed fault left := by
  constructor
  · rintro ⟨other, rfl, hread⟩
    rw [Utf8.decode_encode] at h
    cases h
    exact hread
  · intro hread
    exact ⟨text, Utf8.decode_eq_ok_iff.mp h, hread⟩

-- A text that holds a value, however deep, meets no limit exactly if the value is not too deep.
theorem readable_iff_height {depth : Nat} {text : Text} {json : Json}
    (h : Json.Reader.readTo depth (Text.unifyNewlines text) = .ok json) :
    Readable (Utf8.encode text) ↔ json.height ≤ depthLimit := by
  rw [readable_iff (Utf8.decode_encode text), Json.Reader.read_eq_readTo]
  rcases Json.Reader.readTo_limited depthLimit h with
    ⟨hheight, hread⟩ | ⟨hheight, container, hread⟩
  · simp [hread, hheight]
  · have hdeep : ¬json.height ≤ depthLimit := by omega
    simp [hread, hdeep]

theorem answered_ofBytes_iff (path : Path) (content : List UInt8) :
    Answered (ofBytes path content) ↔ Readable content := by
  cases hdecode : Utf8.decode content with
  | error invalid =>
      have hunreadable : ¬Readable content := by
        rintro ⟨text, rfl, _⟩
        rw [Utf8.decode_encode] at hdecode
        cases hdecode
      simp only [ofBytes, hdecode, Answered, hunreadable]
      simp
  | ok text =>
      rw [readable_iff hdecode]
      cases hread : Json.Reader.read (Text.unifyNewlines text) with
      | error stop => cases stop <;> simp [ofBytes, hdecode, hread, Answered]
      | ok found =>
          cases found with
          | object members =>
              cases hvalid : Configuration.ofJson (.object members) <;>
                simp [ofBytes, hdecode, hread, hvalid, Answered]
          | _ => simp [ofBytes, hdecode, hread, Answered]

variable {disk : Disk} {path : Path}

theorem answered_load_iff : Answered (load disk path) ↔
    path.hasNull = false ∧ ∀ content, disk.read path = .ok content → Readable content := by
  unfold load
  cases hnull : path.hasNull with
  | true => simp [Disk.read, hnull, Answered]
  | false =>
      cases hread : disk.read path with
      | ok content => simp [answered_ofBytes_iff]
      | error failure =>
          simp only [Disk.read, hnull, Bool.false_eq_true, if_false] at hread
          split at hread
          · cases hread
          · cases hread
            simp [Answered]
          · cases hread
            simp [Answered]

namespace Loader

variable {loader : Loader} {project : Text}

theorem load_value_ok (configuration : Configuration)
    (h : (loader.load disk project).value = .ok configuration) :
    Preferences.load disk (loader.path project) = .ok configuration ∨
      configuration = loader.defaults := by
  simp only [load] at h
  split at h
  · cases h
  · cases h
    exact Or.inr rfl
  split at h
  · cases h
    exact Or.inr rfl
  · exact Or.inl h

theorem load_ok_iff_of_file (h : disk.isFile? (loader.path project) = .ok true) :
    (∃ configuration, (loader.load disk project).value = .ok configuration) ↔
      Answered (Preferences.load disk (loader.path project)) := by
  simp only [load, h]
  cases hload : Preferences.load disk (loader.path project) with
  | ok configuration => simp [Answered]
  | error failure => cases failure <;> simp [Answered]

theorem load_ok_iff : (∃ configuration, (loader.load disk project).value = .ok configuration) ↔
    (∃ found, disk.isFile? (loader.path project) = .ok found) ∧
      ∀ content, disk.read (loader.path project) = .ok content → Readable content := by
  cases hfile : disk.isFile? (loader.path project) with
  | error failure => simp [load, hfile]
  | ok found =>
      cases found with
      | false =>
          have hunread : ∀ content, disk.read (loader.path project) ≠ .ok content := by
            intro content hread
            have htrue := Disk.isFile?_eq_true_iff_read.mpr ⟨content, hread⟩
            rw [hfile] at htrue
            cases htrue
          simp [load, hfile, hunread]
      | true =>
          obtain ⟨content, hread⟩ := Disk.isFile?_eq_true_iff_read.mp hfile
          have hnull : (loader.path project).hasNull = false := by
            cases hnull : (loader.path project).hasNull with
            | false => rfl
            | true => simp [Disk.read, hnull] at hread
          rw [load_ok_iff_of_file hfile, answered_load_iff]
          simp [hnull]

-- Preferences are read or cannot be used, and a project has a configuration, unless a name is too
-- long or the content is beyond what its readers follow. A text with few enough containers and
-- short enough numbers never is, and the text of a value is only if the value is too deep.
theorem load_falls_back (disk : Disk) (path : Path) (loader : Loader) (project : Text) :
    (Answered (Preferences.load disk path) ↔
      path.hasNull = false ∧ ∀ content, disk.read path = .ok content → Readable content) ∧
    ((∃ configuration, (loader.load disk project).value = .ok configuration) ↔
      ((loader.path project).hasNull = true ∨
          disk.find (loader.path project) ≠ .error .nameTooLong) ∧
        ∀ content, disk.read (loader.path project) = .ok content → Readable content) ∧
    (∀ configuration, (loader.load disk project).value = .ok configuration →
      Preferences.load disk (loader.path project) = .ok configuration ∨
        configuration = loader.defaults) ∧
    (∀ text, openings (Text.unifyNewlines text) ≤ depthLimit →
      (∀ run, run <:+: Text.unifyNewlines text → (∀ c ∈ run, c.isDigit = true) →
        run.length ≤ digitLimit) → Readable (Utf8.encode text)) ∧
    (∀ text depth json, Json.Reader.readTo depth (Text.unifyNewlines text) = .ok json →
      (Readable (Utf8.encode text) ↔ json.height ≤ depthLimit)) := by
  refine ⟨answered_load_iff, ?_, load_value_ok, fun _ => readable_encode,
    fun _ _ _ => readable_iff_height⟩
  rw [load_ok_iff, Disk.isFile?_eq_ok_iff]

-- A byte that begins no character, where the preferences of a project are.
private def brokenDisk : Disk := {
  entries := [("p".toList, .folder [(".settings".toList, .folder [
    ("proto_paths.json".toList, .file [0xFF])])])]
  here := [] }

-- Such content is no failure of preferences, and it leaves a project without a configuration.
theorem load_broken_content :
    let loader : Loader := ⟨⟨.root, []⟩, "proto_paths.json".toList, ⟨.singleFolder, []⟩⟩
    let failure : Failure := .noUtf8 ⟨.start, 0, 1⟩ 0xFF
    brokenDisk.read (loader.path "p".toList) = .ok [0xFF] ∧
    Preferences.load brokenDisk (loader.path "p".toList) = .error failure ∧
    (loader.load brokenDisk "p".toList).value = .error failure := by
  decide +kernel

end Loader

end WorkspaceImports.Preferences

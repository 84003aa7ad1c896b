import WorkspaceImports.Proofs.Disk.Journey
import WorkspaceImports.Proofs.Import.Search
import WorkspaceImports.Proofs.Text.Name
import WorkspaceImports.Proofs.Text.Percent

namespace WorkspaceImports

namespace Disk

variable {disk : Disk} {path : Path} {refusal : Refusal}
  {wording : Wording}

-- The refusals that mean that nothing is there. Any other one leaves it open.
def Refusal.absent : List Refusal := [.notFound, .notAFolder, .linkLoop]

theorem find_ne_isAFolder : disk.find path ≠ .error .isAFolder := by
  rw [ne_eq, find_eq_iff]
  rintro (_ | ⟨-, hanswers⟩ | _ | _)
  cases hanswers with
  | ends _ _ hends => cases hends

theorem holdsFile_of_hasNull (hnull : path.hasNull = true) :
    disk.holdsFile wording (some path) = .pure false := by
  simp [holdsFile, exists?, test, hnull]

theorem holdsFile_of_ok {entry : Entry} (hnull : path.hasNull = false)
    (hfind : disk.find path = .ok entry) : disk.holdsFile wording (some path) = .pure true := by
  simp [holdsFile, exists?, test, hnull, hfind]

theorem exists?_of_error (hnull : path.hasNull = false) (hfind : disk.find path = .error refusal) :
    disk.exists? path =
      if refusal ∈ Refusal.absent then .ok false else .error (.refused refusal path) := by
  cases refusal with
  | isAFolder => exact absurd hfind find_ne_isAFolder
  | _ => simp [exists?, test, hnull, hfind, Refusal.absent]

theorem holdsFile_of_error (hnull : path.hasNull = false)
    (hfind : disk.find path = .error refusal) : disk.holdsFile wording (some path) =
      ⟨false, [], if refusal ∈ Refusal.absent then []
        else [.checkFailed wording (refusal.message path)]⟩ := by
  simp only [holdsFile, exists?_of_error hnull hfind]
  by_cases habsent : refusal ∈ Refusal.absent
  · simp only [habsent, if_true]
    rfl
  · simp only [habsent, if_false]
    rfl

-- A file is there if the path to it can be handed to the system and something stands at its end.
theorem holdsFile_value (disk : Disk) (wording : Wording) (path? : Option Path) :
    (disk.holdsFile wording path?).value = true ↔ ∃ path entry, path? = some path ∧
      path.hasNull = false ∧ disk.Stat path (.ok entry) := by
  simp only [← find_eq_iff]
  cases path? with
  | none => simp [holdsFile, Inquiry.pure]
  | some path =>
      cases hnull : path.hasNull with
      | true => simp [holdsFile_of_hasNull hnull, Inquiry.pure, hnull]
      | false =>
          cases hfind : disk.find path with
          | ok entry => simp [holdsFile_of_ok hnull hfind, Inquiry.pure, hnull, hfind]
          | error refusal => simp [holdsFile_of_error hnull hfind, hfind]

-- What the system says is told only where it leaves open whether something is there.
theorem mem_holdsFile_log (disk : Disk) (wording : Wording) (path? : Option Path)
    (event : Event) :
    event ∈ (disk.holdsFile wording path?).log ↔ ∃ path refusal, path? = some path ∧
      path.hasNull = false ∧ disk.Stat path (.error refusal) ∧ refusal ∉ Refusal.absent ∧
        event = .checkFailed wording (refusal.message path) := by
  simp only [← find_eq_iff]
  cases path? with
  | none => simp [holdsFile, Inquiry.pure]
  | some path =>
      cases hnull : path.hasNull with
      | true => simp [holdsFile_of_hasNull hnull, Inquiry.pure, hnull]
      | false =>
          cases hfind : disk.find path with
          | ok entry => simp [holdsFile_of_ok hnull hfind, Inquiry.pure, hfind]
          | error refusal =>
              by_cases habsent : refusal ∈ Refusal.absent <;>
                simp [holdsFile_of_error hnull hfind, hnull, hfind, habsent]

theorem holdsFile_quiet (disk : Disk) (wording : Wording) (path? : Option Path) :
    (disk.holdsFile wording path?).asked = [] ∧ (disk.holdsFile wording path?).log.length ≤ 1 := by
  cases path? with
  | none => simp [holdsFile, Inquiry.pure]
  | some path =>
      simp only [holdsFile]
      split <;> simp [Inquiry.pure]

end Disk

namespace Uri

variable {uri : Uri}

theorem isThere_file (h : uri.scheme = .file) (disk : Disk) (check : Check) :
    uri.isThere disk check = disk.holdsFile (.text uri.text) uri.localPath? := by
  rw [isThere, h]

theorem isThere_workspace (h : uri.scheme = .workspace) (disk : Disk) (check : Check) :
    uri.isThere disk check = check.ask (.text uri.text) := by
  rw [isThere, h]

theorem isThere_unknown (h : uri.scheme = .unknown) (disk : Disk) (check : Check) :
    uri.isThere disk check = .pure false := by
  rw [isThere, h]

-- Whether something is there has an answer for every URI, also for one whose parts do not fit. A
-- resource is left to the check, which is asked once, and a file to the disk, and neither answer
-- depends on the other one's world. One line is logged if the check fails or the system leaves it
-- open.
theorem isThere_apart (disk : Disk) (check : Check) (uri : Uri) :
    let inquiry := uri.isThere disk check
    inquiry.asked = (if uri.scheme = .workspace then [.text uri.text] else []) ∧
    (uri.scheme = .workspace → inquiry.value = (check (.text uri.text)).answer.holds ∧
      ∀ other : Disk, uri.isThere other check = inquiry) ∧
    (uri.scheme = .file → (∀ other : Check, uri.isThere disk other = inquiry) ∧
      (inquiry.value = true ↔ ∃ path entry, uri.localPath? = some path ∧
        path.hasNull = false ∧ disk.Stat path (.ok entry))) ∧
    (uri.scheme = .unknown → inquiry.value = false) ∧
    ∃ own, inquiry.log =
        (if uri.scheme = .workspace then (check (.text uri.text)).log else []) ++ own ∧
      own.length ≤ 1 ∧ (∀ event ∈ own, event.level = .warning) ∧
      ∀ event, event ∈ own ↔
        (uri.scheme = .workspace ∧ ∃ reason, (check (.text uri.text)).answer = .failure reason ∧
          event = .checkFailed (.text uri.text) reason) ∨
        (uri.scheme = .file ∧ ∃ path refusal, uri.localPath? = some path ∧
          path.hasNull = false ∧ disk.Stat path (.error refusal) ∧
          refusal ∉ [.notFound, .notAFolder, .linkLoop] ∧
          event = .checkFailed (.text uri.text) (refusal.message path)) := by
  intro inquiry
  cases hscheme : uri.scheme with
  | file =>
      have hinquiry : inquiry = disk.holdsFile (.text uri.text) uri.localPath? :=
        isThere_file hscheme disk check
      obtain ⟨hasked, hlength⟩ := Disk.holdsFile_quiet disk (.text uri.text) uri.localPath?
      rw [hinquiry]
      refine ⟨hasked, by simp, fun _ => ⟨fun other => isThere_file hscheme disk other,
        Disk.holdsFile_value ..⟩, by simp, _, rfl, hlength, ?_, ?_⟩
      · intro event hmem
        obtain ⟨path, refusal, -, -, -, -, rfl⟩ := (Disk.mem_holdsFile_log ..).mp hmem
        rfl
      · intro event
        simpa [Disk.Refusal.absent] using
          Disk.mem_holdsFile_log disk (.text uri.text) uri.localPath? event
  | workspace =>
      have hinquiry : inquiry = check.ask (.text uri.text) := isThere_workspace hscheme disk check
      refine ⟨by simp [hinquiry], ?_, by simp, by simp, ?_⟩
      · intro _
        exact ⟨by rw [hinquiry, Check.ask_value]; rfl,
          fun other => (isThere_workspace hscheme other check).trans hinquiry.symm⟩
      rw [hinquiry]
      cases hanswer : (check (.text uri.text)).answer with
      | value value =>
          refine ⟨[], ?_, by simp, by simp, by simp⟩
          simp [Check.ask, hanswer]
      | failure reason =>
          refine ⟨[.checkFailed (.text uri.text) reason], ?_, by simp, by simp [Event.level],
            by simp⟩
          simp [Check.ask, hanswer]
  | unknown =>
      have hinquiry : inquiry = .pure false := isThere_unknown hscheme disk check
      rw [hinquiry]
      refine ⟨rfl, by simp, by simp, fun _ => rfl, [], rfl, by simp, by simp, by simp⟩

-- A link to itself is not there, and a name that is too long is told of.
example :
    let disk : Disk := ⟨[("loop".toList, .link "loop".toList)], []⟩
    let check : Check := fun _ => ⟨.value (.bool true), []⟩
    let loop := (parse "file:/loop".toList).isThere disk check
    let long := (parse ("file:/".toList ++ List.replicate 256 'a')).isThere disk check
    loop.value = false ∧ loop.log = [] ∧ long.value = false ∧ long.log.length = 1 := by
  decide +kernel

end Uri

namespace Wording

theorem localPath?_text (text : Text) :
    (Wording.text text).localPath? = (Uri.parse text).localPath? := by
  rw [localPath?, Uri.localPath?, scheme_text, ending_text (Uri.pathPart_suffix text),
    Percent.decodeWording_text]
  have htext : (Uri.parse text).text = text := rfl
  rw [htext]
  cases (Uri.parse text).scheme with
  | workspace => rfl
  | unknown => rfl
  | file =>
      cases Percent.decode (Uri.pathPart text) with
      | nil => rfl
      | cons c rest => exact congrArg some (Path.ofWording_text (c :: rest))

-- What is asked about a text is asked about the URI that it is.
theorem isThere_text (disk : Disk) (check : Check) (text : Text) :
    (Wording.text text).isThere disk check = (Uri.parse text).isThere disk check := by
  rw [isThere, Uri.isThere, scheme_text, localPath?_text]
  rfl

end Wording

end WorkspaceImports

import WorkspaceImports.Proofs.Text.Name
import WorkspaceImports.Proofs.Text.Percent
import WorkspaceImports.Proofs.Uri.Wording
import WorkspaceImports.Proofs.Workspace.Unlinked

namespace WorkspaceImports.Workspace

variable {workspace : Workspace} {disk : Disk} {wording : Wording}

section Text

theorem pathOfWordings_text (workspace : Workspace) (segments : List Text) :
    workspace.pathOfWordings (segments.map Wording.text) = workspace.pathOf segments := by
  simp only [pathOfWordings, pathOf, List.foldl_map, Percent.decodeWording_text,
    Path.ofWording_text]

theorem targetOf_text (workspace : Workspace) (disk : Disk) (text : Text) :
    workspace.targetOf disk (.text text) = workspace.target disk (Uri.parse text) := by
  rw [targetOf, target, Wording.scheme_text, Wording.segments_text]
  cases (Uri.parse text).scheme with
  | file => rfl
  | unknown => rfl
  | workspace =>
      rcases (Uri.parse text).segments with _ | ⟨word, _ | ⟨part, parts⟩⟩
      · rfl
      · rfl
      · exact congrArg (workspace.leadsTo disk) (workspace.pathOfWordings_text (part :: parts))

-- Of a text the check of a workspace says what the workspace holds.
theorem holdsWording_text (workspace : Workspace) (disk : Disk) (text : Text) :
    workspace.holdsWording disk (.text text) = workspace.holds disk (Uri.parse text) := by
  rw [holdsWording, holds, file?, targetOf_text]
  rfl

end Text

theorem targetOf_eq_inside_iff {path : Path} :
    workspace.targetOf disk wording = .ok (.inside path) ↔
      wording.scheme = .workspace ∧ 2 ≤ wording.segments.length ∧
        disk.resolve (workspace.pathOfWordings wording.segments.tail) = .ok path ∧
        (workspace.root.below? path).isSome := by
  unfold targetOf
  rcases wording.segments with _ | ⟨word, _ | ⟨part, parts⟩⟩
  · cases wording.scheme <;> simp
  · cases wording.scheme <;> simp
  cases wording.scheme <;> simp [leadsTo_eq_inside_iff]

theorem holdsWording_eq_true_iff : (workspace.holdsWording disk wording).value = .ok true ↔
    ∃ path, workspace.targetOf disk wording = .ok (.inside path) ∧
      disk.isFile? path = .ok true := by
  simp only [holdsWording, holdsAt_eq_true_iff, inside?_eq_some_iff]

theorem pathOfWordings_cons (root : Path) (segment : Wording) (rest : List Wording) :
    (Workspace.mk root).pathOfWordings (segment :: rest) =
      (Workspace.mk (root.join
        (Path.ofWording (Percent.decodeWording segment)))).pathOfWordings rest := rfl

-- The names that segments are read as. A single dot leads nowhere.
def namesOf (segments : List Wording) : List Text :=
  (segments.filter (· ≠ [.char '.'])).map Wording.name

theorem namesOf_text (segments : List Text) :
    namesOf (segments.map Wording.text) = segments.filter (· ≠ ['.']) := by
  rw [namesOf, Wording.filter_text_ne_dot, Wording.map_name_text]

-- Segments without escapes are gone down from the root by their names.
theorem pathOfWordings_undecoded (workspace : Workspace) {segments : List Wording}
    (hsegments : ∀ segment ∈ segments, segment ≠ [] ∧ .char '/' ∉ segment)
    (hpercent : ∀ segment ∈ segments, .char '%' ∉ segment) :
    workspace.pathOfWordings segments =
      ⟨workspace.root.anchor, workspace.root.names ++ namesOf segments⟩ := by
  induction segments generalizing workspace with
  | nil => simp [pathOfWordings, namesOf]
  | cons segment rest ih =>
      obtain ⟨⟨hne, hslash⟩, hrest⟩ := List.forall_mem_cons.mp hsegments
      obtain ⟨hescape, hescapes⟩ := List.forall_mem_cons.mp hpercent
      rw [pathOfWordings_cons, Percent.decodeWording_eq_self_of_notMem hescape, ih _ hrest hescapes,
        Path.ofWording_segment hne hslash]
      simp [Path.join, namesOf, ← List.map_append, ← List.filter_append]

-- Only what is written as dots is read as dots.
theorem ne_of_mem_namesOf {segments : List Wording} (hne : ∀ segment ∈ segments, segment ≠ [])
    (hdots : [.char '.', .char '.'] ∉ segments) {name : Text} (h : name ∈ namesOf segments) :
    name ≠ [] ∧ name ≠ ['.'] ∧ name ≠ ['.', '.'] := by
  obtain ⟨segment, hmem, rfl⟩ := List.mem_map.mp h
  obtain ⟨hmem, hdot⟩ := List.mem_filter.mp hmem
  refine ⟨fun hnil => hne segment hmem (Wording.name_eq_nil_iff.mp hnil), fun hname => ?_,
    fun hname => ?_⟩
  · rw [Wording.eq_text_of_name (by simp) (by decide) (by decide) hname] at hdot
    exact absurd hdot (by decide)
  · rw [Wording.eq_text_of_name (by simp) (by decide) (by decide) hname] at hmem
    exact hdots hmem

-- A resource whose segments stand for themselves is the file at their place below the root.
theorem holdsWording_undecoded (hlinks : disk.Unlinked) (hroot : workspace.Rooted) {word : Wording}
    {segments : List Wording} (hscheme : wording.scheme = .workspace)
    (hsegments : wording.segments = word :: segments) (hne : segments ≠ [])
    (hparts : ∀ segment ∈ segments, segment ≠ [] ∧ .char '/' ∉ segment)
    (hpercent : ∀ segment ∈ segments, .char '%' ∉ segment)
    (hdots : [.char '.', .char '.'] ∉ segments) :
    workspace.holdsWording disk wording =
      if ∀ name ∈ namesOf segments, '\x00' ∉ name then
        ⟨disk.isFile? ⟨.root, workspace.root.names ++ namesOf segments⟩, []⟩
      else ⟨.error .nullCharacter, []⟩ := by
  obtain ⟨segment, rest, rfl⟩ := List.exists_cons_of_ne_nil hne
  have htarget : workspace.targetOf disk wording =
      workspace.leadsTo disk ⟨.root, workspace.root.names ++ namesOf (segment :: rest)⟩ := by
    rw [targetOf, hscheme, hsegments]
    simp only [workspace.pathOfWordings_undecoded hparts hpercent, hroot.anchor]
  have hnames : ∀ name ∈ namesOf (segment :: rest),
      name ≠ [] ∧ name ≠ ['.'] ∧ name ≠ ['.', '.'] :=
    fun name => ne_of_mem_namesOf (fun part hmem => (hparts part hmem).1) hdots
  rw [holdsWording, htarget]
  exact holdsAt_below hlinks hroot wording
    (fun name hmem => ⟨(hnames name hmem).1, (hnames name hmem).2.1⟩)
    fun hmem => (hnames _ hmem).2.2 rfl

end WorkspaceImports.Workspace

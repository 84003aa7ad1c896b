import WorkspaceImports.Proofs.Disk.Resolve
import WorkspaceImports.Proofs.Uri.Segments
import WorkspaceImports.Workspace

namespace WorkspaceImports

theorem Path.eq_append_of_below? {folder path : Path} {names : List Text}
    (h : folder.below? path = some names) :
    folder.anchor = path.anchor ∧ path.names = folder.names ++ names := by
  unfold below? at h
  split at h
  · rename_i hbelow
    obtain ⟨hanchor, more, hmore⟩ := hbelow
    cases h
    exact ⟨hanchor, by rw [← hmore, List.drop_left]⟩
  · cases h

theorem Path.join_anchor {path : Path} (h : path.anchor ≠ .here) (next : Path) :
    (path.join next).anchor ≠ .here := by
  unfold join
  split
  · exact h
  · rename_i hnext
    exact hnext

namespace Workspace

variable {workspace : Workspace} {disk : Disk} {uri : Uri} {path : Path}

theorem pathOf_cons (root : Path) (segment : Text) (rest : List Text) :
    (Workspace.mk root).pathOf (segment :: rest) =
      (Workspace.mk (root.join (Path.ofText (Percent.decode segment)))).pathOf rest := rfl

theorem pathOf_anchor (workspace : Workspace) (h : workspace.root.anchor ≠ .here)
    (segments : List Text) : (workspace.pathOf segments).anchor ≠ .here := by
  induction segments generalizing workspace with
  | nil => exact h
  | cons segment rest ih =>
      rw [pathOf_cons]
      exact ih _ (Path.join_anchor h _)

-- Every piece of a resource's path comes from the root or from a segment.
theorem mem_pathOf {segments : List Text} {name : Text}
    (h : name ∈ (workspace.pathOf segments).names) :
    name ∈ workspace.root.names ∨
      ∃ segment ∈ segments, name ∈ (Path.ofText (Percent.decode segment)).names := by
  induction segments generalizing workspace with
  | nil => exact Or.inl h
  | cons segment rest ih =>
      have hrest : name ∈ ((Workspace.mk (workspace.root.join
          (Path.ofText (Percent.decode segment)))).pathOf rest).names := h
      rcases ih hrest with hjoin | ⟨other, hmem, hname⟩
      · unfold Path.join at hjoin
        split at hjoin
        · exact (List.mem_append.mp hjoin).imp_right fun hname =>
            ⟨segment, List.mem_cons_self, hname⟩
        · exact Or.inr ⟨segment, List.mem_cons_self, hjoin⟩
      · exact Or.inr ⟨other, List.mem_cons_of_mem _ hmem, hname⟩

-- Segments that start at no root are gone down from one.
theorem pathOf_relative (workspace : Workspace) {segments : List Text}
    (h : ∀ segment ∈ segments, (Path.ofText (Percent.decode segment)).anchor = .here) :
    workspace.pathOf segments = ⟨workspace.root.anchor, workspace.root.names ++
      segments.flatMap fun segment => (Path.ofText (Percent.decode segment)).names⟩ := by
  induction segments generalizing workspace with
  | nil => simp [pathOf]
  | cons segment rest ih =>
      obtain ⟨hsegment, hrest⟩ := List.forall_mem_cons.mp h
      rw [pathOf_cons, Path.join, hsegment, ih _ hrest]
      simp

-- Segments that are not changed by decoding are gone down from the root.
theorem pathOf_undecoded (workspace : Workspace) {segments : List Text}
    (hsegments : ∀ segment ∈ segments, segment ≠ [] ∧ '/' ∉ segment)
    (hdecode : ∀ segment ∈ segments, Percent.decode segment = segment) :
    workspace.pathOf segments =
      ⟨workspace.root.anchor, workspace.root.names ++ segments.filter (· ≠ ['.'])⟩ := by
  induction segments generalizing workspace with
  | nil => simp [pathOf]
  | cons segment rest ih =>
      obtain ⟨hne, hslash⟩ := hsegments segment List.mem_cons_self
      rw [pathOf_cons, hdecode segment List.mem_cons_self, Path.ofText_segment hne hslash,
        ih _ (fun other hmem => hsegments other (List.mem_cons_of_mem _ hmem))
          (fun other hmem => hdecode other (List.mem_cons_of_mem _ hmem))]
      simp [Path.join, ← List.filter_append]

theorem leadsTo_eq_inside_iff {way : Path} : workspace.leadsTo disk way = .ok (.inside path) ↔
    disk.resolve way = .ok path ∧ (workspace.root.below? path).isSome := by
  unfold leadsTo
  cases hresolve : disk.resolve way with
  | error failure => simp
  | ok resolved =>
      simp only [Except.ok.injEq]
      constructor
      · intro h
        split at h
        · rename_i hbelow
          cases h
          exact ⟨rfl, hbelow⟩
        · cases h
      · rintro ⟨rfl, hbelow⟩
        rw [if_pos hbelow]

theorem inside?_eq_some_iff {wording : Wording} {target : Except Disk.Failure Target} :
    (workspace.inside? wording target).value = .ok (some path) ↔ target = .ok (.inside path) := by
  rcases target with failure | _ | _ | found <;> simp [inside?]

theorem holdsAt_eq_true_iff {found : Logged (Except Disk.Failure (Option Path))} :
    (holdsAt disk found).value = .ok true ↔
      ∃ path, found.value = .ok (some path) ∧ disk.isFile? path = .ok true := by
  obtain ⟨value, log⟩ := found
  rcases value with failure | _ | path <;> simp [holdsAt]

-- The segments after the first are resolved from the root, and what is not below it is no file.
theorem file?_value (text word segment : Text) (rest : List Text) :
    (workspace.file? disk ⟨text, .workspace, word :: segment :: rest⟩).value =
      (disk.resolve (workspace.pathOf (segment :: rest))).map fun path =>
        if (workspace.root.below? path).isSome then some path else none := by
  simp only [file?, target, leadsTo]
  cases disk.resolve (workspace.pathOf (segment :: rest)) with
  | error failure => rfl
  | ok path =>
      by_cases hbelow : (workspace.root.below? path).isSome <;> simp [hbelow, inside?, Except.map]

theorem file?_eq_some_iff : (workspace.file? disk uri).value = .ok (some path) ↔
    uri.scheme = .workspace ∧ 2 ≤ uri.segments.length ∧
      disk.resolve (workspace.pathOf uri.segments.tail) = .ok path ∧
      (workspace.root.below? path).isSome := by
  rw [file?, inside?_eq_some_iff]
  obtain ⟨text, scheme, segments⟩ := uri
  rcases segments with _ | ⟨word, _ | ⟨segment, rest⟩⟩
  · cases scheme <;> simp [target]
  · cases scheme <;> simp [target]
  cases scheme <;> simp [target, leadsTo_eq_inside_iff]

theorem holds_eq_true_iff : (workspace.holds disk uri).value = .ok true ↔
    ∃ path, (workspace.file? disk uri).value = .ok (some path) ∧ disk.isFile? path = .ok true :=
  holdsAt_eq_true_iff

-- What the check holds of is a file at the root or below, unless the resolution was given up at a
-- circle and a link is left on the path it returned.
theorem holds_inside (h : (workspace.holds disk uri).value = .ok true) :
    ∃ path place content, (workspace.file? disk uri).value = .ok (some path) ∧
      disk.locate path = .ok place ∧ disk.at? place = some (.file content) ∧
      ((place = path.names ∧ workspace.root.names <+: place) ∨
        ((∃ circle, disk.resolution (workspace.pathOf uri.segments.tail) = .circled circle) ∧
          ¬disk.Linkless path.names)) := by
  obtain ⟨path, hfile, hisFile⟩ := holds_eq_true_iff.mp h
  obtain ⟨hnull, place, content, hlocate, hentry⟩ := (Disk.isFile?_eq_true_iff path).mp hisFile
  obtain ⟨_, _, hresolve, hbelow⟩ := file?_eq_some_iff.mp hfile
  obtain ⟨names, hnames⟩ := Option.isSome_iff_exists.mp hbelow
  obtain ⟨hanchor, hpath⟩ := Path.eq_append_of_below? hnames
  have hroot : workspace.root.anchor ≠ .here := hanchor ▸ Disk.resolve_anchor hresolve
  have hpathOf := workspace.pathOf_anchor hroot uri.segments.tail
  refine ⟨path, place, content, hfile, hlocate, hentry, ?_⟩
  by_cases hlinkless : disk.Linkless path.names
  · have hplace := Disk.locate_eq_names (Disk.resolve_anchor hresolve)
      (Disk.isName_of_resolve hpathOf hresolve) hlinkless hlocate
    exact Or.inl ⟨hplace, names, by rw [hplace, hpath]⟩
  · obtain ⟨⟨met, way, harrived, hway⟩ | ⟨circle, hcircled, _⟩, _⟩ :=
      Disk.resolve_eq_ok_iff.mp hresolve
    · -- a way that was gone to its end has no link left, as far as the system looks
      have horigin := Disk.resolution_origin harrived hpathOf
      have hsize := Disk.size_lt_of_locate hlocate
      obtain ⟨origin, names⟩ := way
      subst horigin hway
      exact absurd ((Disk.resolution_straight harrived).linkless hsize) hlinkless
    · exact Or.inr ⟨⟨circle, hcircled⟩, hlinkless⟩

-- A workspace with a link to one of its folders, a link to a folder outside and a link to itself.
private def linkedDisk : Disk := {
  entries := [
    ("ws".toList, .folder [
      ("loop".toList, .link "loop".toList),
      ("link".toList, .link "../out".toList),
      ("inner".toList, .link "./p".toList),
      ("p".toList, .folder [("x".toList, .file [])])]),
    ("out".toList, .folder [("x".toList, .file [])])]
  here := [] }

private def linkedWorkspace : Workspace := ⟨⟨.root, ["ws".toList]⟩⟩

-- The way may lead out of the workspace, as long as it leads back.
theorem holds_inside_and_back :
    let uri := Uri.parse "platform:/resource/link/../ws/inner/x".toList
    (linkedWorkspace.holds linkedDisk uri).value = .ok true ∧
    ∃ path place, (linkedWorkspace.file? linkedDisk uri).value = .ok (some path) ∧
      linkedDisk.locate path = .ok place ∧ linkedWorkspace.root.names <+: place := by
  have hholds : (linkedWorkspace.holds linkedDisk
      (Uri.parse "platform:/resource/link/../ws/inner/x".toList)).value = .ok true := by
    decide +kernel
  refine ⟨hholds, ?_⟩
  obtain ⟨path, place, _, hfile, hlocate, _, ⟨_, hinside⟩ | ⟨⟨circle, hcircled⟩, _⟩⟩ :=
    holds_inside hholds
  · exact ⟨path, place, hfile, hlocate, hinside⟩
  · have harrived : (match linkedDisk.resolution (linkedWorkspace.pathOf
        (Uri.parse "platform:/resource/link/../ws/inner/x".toList).segments.tail) with
      | .circled _ => true
      | _ => false) = false := by decide +kernel
    rw [hcircled] at harrived
    cases harrived

-- A link after a circle is not followed when the path is compared with the root, but it is when
-- the file is opened.
theorem holds_outside :
    let uri := Uri.parse "platform:/resource/loop/../link/x".toList
    let path : Path := ⟨.root, ["ws".toList, "link".toList, "x".toList]⟩
    let place := ["out".toList, "x".toList]
    Workspace.ofRoot linkedDisk linkedWorkspace.root = .ok linkedWorkspace ∧
    (linkedWorkspace.holds linkedDisk uri).value = .ok true ∧
    (linkedWorkspace.file? linkedDisk uri).value = .ok (some path) ∧
    linkedDisk.locate path = .ok place ∧ linkedDisk.at? place = some (.file []) ∧
    ¬linkedWorkspace.root.names <+: place := by
  decide +kernel

end Workspace

end WorkspaceImports

import WorkspaceImports.Proofs.Disk.Tower
import WorkspaceImports.Proofs.Workspace.Unlinked

namespace WorkspaceImports

open Disk (IsName)

namespace Uri

-- The pieces that a segment leads along when it is decoded.
def pieces (segment : Text) : List Text := Text.segments '/' (Percent.decode segment)

-- A segment that, decoded, starts at the root of the disk.
def StartsOver (segment : Text) : Prop := (Percent.decode segment).head? = some '/'

instance (segment : Text) : Decidable (StartsOver segment) :=
  inferInstanceAs (Decidable (_ = _))

end Uri

theorem Path.anchorOf_eq_here_iff {text : Text} :
    anchorOf text = .here ↔ text.head? ≠ some '/' := by
  unfold anchorOf
  split
  · simp
  · simp
  · simp
  · rename_i hrelative
    cases text with
    | nil => simp
    | cons c rest =>
        have hc : c ≠ '/' := fun hc => hrelative rest (by rw [hc])
        simpa using hc

-- The single dots that a path's spelling leaves out count nowhere.
theorem Disk.counted_ofText (segment : Text) :
    counted (Path.ofText (Percent.decode segment)).names = counted (Uri.pieces segment) := by
  simp only [counted, Path.ofText, Uri.pieces, List.filter_filter]
  congr 1
  funext piece
  by_cases hdot : piece = ['.'] <;> simp [hdot]

namespace Workspace

variable {workspace : Workspace} {disk : Disk}

-- The place that names lead to by their spelling, if that is the root or below it.
def placeOf? (workspace : Workspace) (names : List Text) : Option Path :=
  let place := Path.collapse [] (Disk.counted names)
  if workspace.root.names <+: place then some ⟨.root, place⟩ else none

theorem counted_pathOf {segments : List Text} (h : ∀ segment ∈ segments, ¬Uri.StartsOver segment) :
    Disk.counted (workspace.pathOf segments).names =
      Disk.counted workspace.root.names ++ Disk.counted (segments.flatMap Uri.pieces) := by
  rw [pathOf_relative workspace fun segment hmem => Path.anchorOf_eq_here_iff.mpr (h segment hmem),
    Disk.counted_append]
  congr 1
  clear h
  induction segments with
  | nil => rfl
  | cons segment rest ih =>
      rw [List.flatMap_cons, List.flatMap_cons, Disk.counted_append, Disk.counted_append,
        Disk.counted_ofText, ih]

-- Whatever stands before a segment that starts over is not seen.
theorem pathOf_startsOver (before : List Text) {segment : Text} (after : List Text)
    (h : Uri.StartsOver segment) :
    workspace.pathOf (before ++ segment :: after) =
      (Workspace.mk (Path.ofText (Percent.decode segment))).pathOf after := by
  have hanchor : (Path.ofText (Percent.decode segment)).anchor ≠ .here :=
    fun hhere => Path.anchorOf_eq_here_iff.mp hhere h
  rw [pathOf, List.foldl_append, List.foldl_cons, Path.join]
  split
  · rename_i hhere
    exact absurd hhere hanchor
  · rfl

theorem hasNull_pathOf (hroot : workspace.Rooted) {segments : List Text}
    (h : ∀ segment ∈ segments, '\x00' ∉ Percent.decode segment) :
    (workspace.pathOf segments).hasNull = false := by
  refine (Path.hasNull_eq_false_iff _).mpr fun name hmem => ?_
  rcases mem_pathOf hmem with hname | ⟨segment, hsegment, hname⟩
  · exact (hroot.names name hname).noNull
  · exact fun hnull => h segment hsegment
      (Text.subset_of_mem_segments (List.mem_filter.mp hname).1 hnull)

theorem file?_value_of_tail_eq_nil {uri : Uri} (h : uri.segments.tail = []) :
    (workspace.file? disk uri).value = .ok none := by
  obtain ⟨text, scheme, _ | ⟨word, rest⟩⟩ := uri
  · cases scheme <;> rfl
  · obtain rfl : rest = [] := h
    cases scheme <;> rfl

-- Without links the file of a resource stands where the names of its path lead to.
theorem file?_value_unlinked (hlinks : disk.Unlinked) (hroot : workspace.Rooted) {uri : Uri}
    (hscheme : uri.scheme = .workspace) (hne : uri.segments.tail ≠ [])
    (hnull : ∀ segment ∈ uri.segments.tail, '\x00' ∉ Percent.decode segment) :
    (workspace.file? disk uri).value =
      .ok (workspace.placeOf? (workspace.pathOf uri.segments.tail).names) := by
  obtain ⟨text, scheme, _ | ⟨word, _ | ⟨segment, rest⟩⟩⟩ := uri
  · exact absurd rfl hne
  · exact absurd rfl hne
  obtain rfl : scheme = .workspace := hscheme
  have hanchor : (workspace.pathOf (segment :: rest)).anchor ≠ .here :=
    workspace.pathOf_anchor (by simp [hroot.anchor]) _
  have hclean : (workspace.pathOf (segment :: rest)).hasNull = false := hasNull_pathOf hroot hnull
  rw [file?_value, Disk.resolve_unlinked hlinks _ (fun hhere => absurd hhere hanchor), hclean,
    Disk.start, if_neg hanchor]
  by_cases hbelow : workspace.root.names <+:
      Path.collapse [] (Disk.counted (workspace.pathOf (segment :: rest)).names)
  · simp [Except.map, placeOf?, Path.below?, hroot.anchor, hbelow]
  · simp [Except.map, placeOf?, Path.below?, hroot.anchor, hbelow]

-- The file of a resource is found by the names of the root and of all the segments, unless a
-- segment starts over: then nothing before the last such segment counts, neither the root nor the
-- project, though the file still has to be in the workspace.
theorem file?_eq_placeOf? (hlinks : disk.Unlinked) (hhere : ∀ name ∈ disk.here, IsName name)
    {root : Path} (hworkspace : ofRoot disk root = .ok workspace) {text : Text}
    (hscheme : (Uri.parse text).scheme = .workspace)
    (hnull : ∀ segment ∈ (Uri.parse text).segments.tail, '\x00' ∉ Percent.decode segment) :
    let segments := (Uri.parse text).segments.tail
    let file := (workspace.file? disk (Uri.parse text)).value
    (segments = [] → file = .ok none) ∧
    (segments ≠ [] → (∀ segment ∈ segments, ¬Uri.StartsOver segment) →
      file = .ok (workspace.placeOf? (workspace.root.names ++ segments.flatMap Uri.pieces))) ∧
    (∀ before segment after, segments = before ++ segment :: after → Uri.StartsOver segment →
      (∀ later ∈ after, ¬Uri.StartsOver later) →
        file = .ok (workspace.placeOf? ((segment :: after).flatMap Uri.pieces))) := by
  have hroot := rooted_of_ofRoot hlinks hhere hworkspace
  intro segments file
  refine ⟨fun hnil => ?_, fun hne hrelative => ?_, ?_⟩
  · exact file?_value_of_tail_eq_nil hnil
  · rw [placeOf?, Disk.counted_append, ← counted_pathOf hrelative]
    exact file?_value_unlinked hlinks hroot hscheme hne hnull
  · intro before segment after hsegments hover hrelative
    have hne : segments ≠ [] := by simp [hsegments]
    have hnames : Disk.counted (workspace.pathOf segments).names =
        Disk.counted ((segment :: after).flatMap Uri.pieces) := by
      rw [hsegments, pathOf_startsOver before after hover, counted_pathOf hrelative,
        Disk.counted_ofText, List.flatMap_cons, Disk.counted_append]
    rw [placeOf?, ← hnames]
    exact file?_value_unlinked hlinks hroot hscheme hne hnull

private def emptyWorkspace : Disk := .tower [] ["ws".toList] []

private theorem emptyWorkspace_unlinked : emptyWorkspace.Unlinked :=
  Disk.tower_unlinked (Node.unlinked_folder (by simp)) _ _

-- Slashes, dots and two dots may be escaped.
theorem file?_of_escaped_way :
    let workspace : Workspace := ⟨⟨.root, ["ws".toList]⟩⟩
    let uri := Uri.parse "platform:/resource/p%2F..%2Fq/.%2F%2Fsrc/../a.proto".toList
    ofRoot emptyWorkspace (Path.ofText "/ws".toList) = .ok workspace ∧
    (workspace.file? emptyWorkspace uri).value =
      .ok (some ⟨.root, ["ws".toList, "q".toList, "a.proto".toList]⟩) := by
  intro workspace uri
  have hhere : ∀ name ∈ emptyWorkspace.here, IsName name := by
    intro name hmem
    cases hmem
  have hroot : ofRoot emptyWorkspace (Path.ofText "/ws".toList) = .ok workspace := by
    decide +kernel
  have hscheme : uri.scheme = .workspace := by decide +kernel
  have hnull : ∀ segment ∈ uri.segments.tail, '\x00' ∉ Percent.decode segment := by
    decide +kernel
  have hrelative : ∀ segment ∈ uri.segments.tail, ¬Uri.StartsOver segment := by decide +kernel
  obtain ⟨-, hfile, -⟩ := file?_eq_placeOf? emptyWorkspace_unlinked hhere hroot hscheme hnull
  exact ⟨hroot, (hfile (by decide +kernel) hrelative).trans (by decide +kernel)⟩

-- Where a later segment starts over, the mapping by all the segments is missed: there is no file,
-- or one of another project.
theorem file?_past_project :
    let workspace : Workspace := ⟨⟨.root, ["ws".toList]⟩⟩
    let file := fun text => (workspace.file? emptyWorkspace (Uri.parse text)).value
    let spelled := fun text => workspace.placeOf? (workspace.root.names ++
      (Uri.parse text).segments.tail.flatMap Uri.pieces)
    let outside := "platform:/resource/p/%2Fa.proto".toList
    let other := "platform:/resource/p/%2Fws%2Fq%2Fa.proto".toList
    emptyWorkspace.Unlinked ∧
    ofRoot emptyWorkspace (Path.ofText "/ws".toList) = .ok workspace ∧
    (∀ text ∈ [outside, other], (Uri.parse text).scheme = .workspace ∧
      ∀ segment ∈ (Uri.parse text).segments.tail, '\x00' ∉ Percent.decode segment) ∧
    file outside = .ok none ∧
    spelled outside = some ⟨.root, ["ws".toList, "p".toList, "a.proto".toList]⟩ ∧
    file other = .ok (some ⟨.root, ["ws".toList, "q".toList, "a.proto".toList]⟩) ∧
    spelled other = some ⟨.root,
      ["ws".toList, "p".toList, "ws".toList, "q".toList, "a.proto".toList]⟩ :=
  ⟨emptyWorkspace_unlinked, by decide +kernel⟩

end Workspace

end WorkspaceImports

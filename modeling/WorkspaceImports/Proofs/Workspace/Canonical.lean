import WorkspaceImports.Proofs.Disk.Tower
import WorkspaceImports.Proofs.Uri.Canonical
import WorkspaceImports.Proofs.Workspace.Address
import WorkspaceImports.Proofs.Workspace.Unlinked

namespace WorkspaceImports

open Disk (IsName)

-- A workspace URI of one or more names behind the word "resource", each written as it is.
structure Uri.Named (uri : Uri) : Prop where
  scheme : uri.scheme = .workspace
  tail_ne_nil : uri.segments.tail ≠ []
  written : ∀ segment ∈ uri.segments.tail,
    '%' ∉ segment ∧ '\x00' ∉ segment ∧ segment ≠ ['.'] ∧ segment ≠ ['.', '.']

namespace Uri.Named

variable {text other : Text} (h : (parse text).Named)

include h

theorem plain : ∀ segment ∈ (parse text).segments.tail, Plain segment := by
  intro segment hmem
  obtain ⟨hpercent, hnull, hdot, hdots⟩ := h.written segment hmem
  obtain ⟨hne, hslash⟩ := (admits_parse text).1 segment (List.mem_of_mem_tail hmem)
  exact ⟨⟨hne, hdot, hdots, hnull⟩, hslash, hpercent⟩

theorem segments_eq :
    (parse text).segments = "resource".toList :: (parse text).segments.tail := by
  obtain ⟨names, hsegments⟩ := List.head?_eq_some_iff.mp ((admits_parse text).2 h.scheme)
  rw [hsegments, List.tail_cons]

-- All that two such URIs can differ in is their names.
theorem segments_eq_iff (hother : (parse other).Named) :
    (parse other).segments = (parse text).segments ↔
      (parse other).segments.tail = (parse text).segments.tail := by
  constructor
  · exact congrArg List.tail
  · intro htail
    rw [hother.segments_eq, h.segments_eq, htail]

theorem pathOf_eq (workspace : Workspace) :
    workspace.pathOf (parse text).segments.tail =
      workspace.below (parse text).segments.tail := by
  refine workspace.pathOf_names (fun name hmem => ?_) fun name hmem => ?_
  · exact ⟨(h.plain name hmem).toIsName, (h.plain name hmem).noSlash⟩
  · exact Percent.decode_eq_self_of_notMem (h.plain name hmem).noPercent

end Uri.Named

namespace Workspace

variable {workspace : Workspace} {disk : Disk}

-- Without links a path along names below the root is resolved to itself, whether or not the names
-- are there and whatever they are the names of.
theorem Rooted.resolve_below (h : workspace.Rooted) (hlinks : disk.Unlinked) {names : List Text}
    (hnames : ∀ name ∈ names, IsName name) :
    disk.resolve (workspace.below names) = .ok (workspace.below names) := by
  have hanchor : (workspace.below names).anchor ≠ .here := by simp [below, h.anchor]
  have hnull : (workspace.below names).hasNull = false := by
    refine (Path.hasNull_eq_false_iff _).mpr fun name hmem => ?_
    rcases List.mem_append.mp hmem with hroot | hmem
    · exact (h.names name hroot).noNull
    · exact (hnames name hmem).noNull
  have hcollapse : Path.collapse [] (Disk.counted (workspace.below names).names) =
      workspace.root.names ++ names := by
    rw [below, h.collapse_counted, Disk.counted_eq_self fun name hmem =>
      ⟨(hnames name hmem).ne_nil, (hnames name hmem).ne_dot⟩, Path.collapse_of_notMem]
    exact fun hmem => (hnames _ hmem).ne_dots rfl
  rw [Disk.resolve_unlinked hlinks _ (fun hhere => absurd hhere hanchor), hnull, Disk.start,
    if_neg hanchor, hcollapse, below, h.anchor]
  rfl

theorem Rooted.file?_named (h : workspace.Rooted) (hlinks : disk.Unlinked) {text : Text}
    (hnamed : (Uri.parse text).Named) :
    (workspace.file? disk (Uri.parse text)).value =
      .ok (some (workspace.below (Uri.parse text).segments.tail)) := by
  refine file?_eq_some_iff.mpr ⟨hnamed.scheme, ?_, ?_, ?_⟩
  · rw [hnamed.segments_eq, List.length_cons]
    have hlength := List.length_pos_iff.mpr hnamed.tail_ne_nil
    omega
  · rw [hnamed.pathOf_eq]
    exact h.resolve_below hlinks fun name hmem => (hnamed.plain name hmem).toIsName
  · rw [below?_eq_some_iff.mpr rfl]
    rfl

-- The file of a URI whose names are written as they are has the URI with these names and one slash
-- between them. So two such URIs lead to one file only if they have the same names.
theorem uri?_of_named (hlinks : disk.Unlinked) (hhere : ∀ name ∈ disk.here, IsName name)
    {root : Path} (hworkspace : ofRoot disk root = .ok workspace) {text : Text}
    (hnamed : (Uri.parse text).Named) :
    let uri := Uri.parse text
    ∃ path, (workspace.file? disk uri).value = .ok (some path) ∧
      workspace.uri? disk path = .ok (some (address uri.segments.tail)) ∧
      ∀ other, (Uri.parse other).Named →
        ((workspace.file? disk (Uri.parse other)).value = (workspace.file? disk uri).value ↔
          (Uri.parse other).segments = uri.segments) := by
  have hroot := rooted_of_ofRoot hlinks hhere hworkspace
  intro uri
  have hfile := hroot.file?_named hlinks hnamed
  have hresolve := hroot.resolve_below hlinks fun name hmem => (hnamed.plain name hmem).toIsName
  refine ⟨workspace.below uri.segments.tail, hfile, uri?_below hnamed.tail_ne_nil hresolve, ?_⟩
  intro other hother
  rw [hroot.file?_named hlinks hother, hfile, hnamed.segments_eq_iff hother]
  constructor
  · intro h
    exact below_injective (Option.some.inj (Except.ok.inj h))
  · intro h
    rw [h]

-- A workspace beside the working folder, with a project that holds one file.
private def neighbour : Disk :=
  .tower ["home".toList] ["ws".toList] [("p".toList, .folder [("a b.proto".toList, .file [])])]

private theorem neighbour_unlinked : neighbour.Unlinked := by
  have hproject : (Node.folder [("a b.proto".toList, Node.file [])]).Unlinked :=
    Node.unlinked_folder (by simpa using Node.unlinked_file [])
  exact Disk.tower_unlinked (Node.unlinked_folder (by simpa using hproject)) _ _

-- Slashes are doubled, and the last name stands below a file.
theorem uri?_of_named_below_file :
    let workspace : Workspace := ⟨⟨.root, ["ws".toList]⟩⟩
    let text := "platform:/resource//p/a b.proto//ü#/".toList
    let canon := "platform:/resource/p/a b.proto/ü#".toList
    ofRoot neighbour (Path.ofText "../ws/none/..".toList) = .ok workspace ∧
    (∃ path, (workspace.file? neighbour (Uri.parse text)).value = .ok (some path) ∧
      workspace.uri? neighbour path = .ok (some canon)) ∧
    (workspace.file? neighbour (Uri.parse canon)).value =
      (workspace.file? neighbour (Uri.parse text)).value := by
  intro workspace text canon
  have hhere : ∀ name ∈ neighbour.here, IsName name := by
    intro name hmem
    obtain rfl := List.mem_singleton.mp hmem
    exact ⟨by decide, by decide, by decide, by decide⟩
  have hroot : ofRoot neighbour (Path.ofText "../ws/none/..".toList) = .ok workspace := by
    decide +kernel
  have hnamed : (Uri.parse text).Named := ⟨by decide +kernel, by decide +kernel, by decide +kernel⟩
  have hcanon : (Uri.parse canon).Named := ⟨by decide +kernel, by decide +kernel, by decide +kernel⟩
  obtain ⟨path, hfile, huri, hsame⟩ := uri?_of_named neighbour_unlinked hhere hroot hnamed
  have haddress : address (Uri.parse text).segments.tail = canon := by decide +kernel
  rw [haddress] at huri
  exact ⟨hroot, ⟨path, hfile, huri⟩, (hsame canon hcanon).mpr (by decide +kernel)⟩

end Workspace

end WorkspaceImports

import WorkspaceImports.Proofs.Disk.Chain
import WorkspaceImports.Proofs.Workspace.RoundTrip

namespace WorkspaceImports.Workspace

open Disk (IsName)

variable {workspace : Workspace} {disk : Disk}

-- The path along names from the workspace root.
def below (workspace : Workspace) (names : List Text) : Path :=
  ⟨workspace.root.anchor, workspace.root.names ++ names⟩

theorem below_injective {names others : List Text}
    (h : workspace.below names = workspace.below others) : names = others :=
  List.append_cancel_left (congrArg Path.names h)

theorem below?_eq_some_iff {path : Path} {names : List Text} :
    workspace.root.below? path = some names ↔ path = workspace.below names := by
  constructor
  · intro h
    obtain ⟨hanchor, hnames⟩ := Path.eq_append_of_below? h
    rw [below, hanchor, ← hnames]
  · rintro rfl
    simp [Path.below?, below]

-- The text of the URI along names from the workspace root.
def address (names : List Text) : Text := Scheme.workspace.opening ++ '/' :: Text.join '/' names

section Resolved

variable {path resolved : Path} {names : List Text}

theorem uri?_below (hne : names ≠ []) (h : disk.resolve path = .ok (workspace.below names)) :
    workspace.uri? disk path = .ok (some (address names)) := by
  obtain ⟨name, rest, rfl⟩ := List.exists_cons_of_ne_nil hne
  exact uri?_eq_some h (below?_eq_some_iff.mpr rfl)

theorem uri?_outside_iff (h : disk.resolve path = .ok resolved) :
    workspace.uri? disk path = .ok none ↔
      ∀ names, names ≠ [] → resolved ≠ workspace.below names := by
  rw [uri?_eq_none_iff]
  constructor
  · rintro ⟨_, hresolve, hbelow⟩ names hne rfl
    obtain rfl := Except.ok.inj (h.symm.trans hresolve)
    obtain ⟨name, rest, rfl⟩ := List.exists_cons_of_ne_nil hne
    exact hbelow name rest (below?_eq_some_iff.mpr rfl)
  · intro houtside
    exact ⟨resolved, h, fun name rest hbelow =>
      houtside (name :: rest) (List.cons_ne_nil _ _) (below?_eq_some_iff.mp hbelow)⟩

end Resolved

section Address

variable {names others : List Text} (hnames : ∀ name ∈ names, IsName name ∧ '/' ∉ name)

include hnames

theorem parse_address :
    Uri.parse (address names) = ⟨address names, .workspace, "resource".toList :: names⟩ :=
  parse_uri hnames

theorem project?_address : (Uri.parse (address names)).project? =
    if names.length = 1 then none else names.head? := by
  rw [parse_address hnames]
  match names with
  | [] => rfl
  | [_] => rfl
  | _ :: _ :: _ => rfl

-- Names are read back from their address, so different ones have different addresses.
theorem address_inj (hothers : ∀ name ∈ others, IsName name ∧ '/' ∉ name) :
    address names = address others ↔ names = others := by
  constructor
  · intro h
    have hparse := congrArg Uri.segments (congrArg Uri.parse h)
    rw [parse_address hnames, parse_address hothers] at hparse
    exact (List.cons.inj hparse).2
  · rintro rfl
    rfl

end Address

-- What is not resolved by giving up at a circle is resolved to names.
theorem names_of_resolve (hgrounded : disk.Grounded) {text : Text}
    (hcircle : ∀ circle, disk.resolution (Path.ofText text) ≠ .circled circle) {names : List Text}
    (h : disk.resolve (Path.ofText text) = .ok (workspace.below names)) :
    ∀ name ∈ names, IsName name ∧ '/' ∉ name := by
  obtain ⟨⟨met, way, harrived, hplace⟩ | ⟨circle, hcircled, -⟩, -⟩ := Disk.resolve_eq_ok_iff.mp h
  · have hall := Disk.names_of_arrived hgrounded harrived
    have hway : workspace.root.names ++ names = way.place disk := congrArg Path.names hplace
    intro name hmem
    exact hall name (hway ▸ List.mem_append_right _ hmem)
  · exact absurd hcircled (hcircle circle)

-- What the URI of a path says that leads along names from the root: these names, the first of them
-- as its project if there are more, and no other path below the root has it.
structure Addressed (workspace : Workspace) (disk : Disk) (path : Path) (names : List Text) :
    Prop where
  written : ∃ uri, workspace.uri? disk path = .ok (some uri) ∧
    (Uri.parse uri).scheme = .workspace ∧
    (Uri.parse uri).segments = "resource".toList :: names ∧
    (Uri.parse uri).project? = if names.length = 1 then none else names.head?
  same_iff : ∀ (text : Text) (others : List Text), others ≠ [] →
    (∀ circle, disk.resolution (Path.ofText text) ≠ .circled circle) →
    disk.resolve (Path.ofText text) = .ok (workspace.below others) →
      (workspace.uri? disk path = workspace.uri? disk (Path.ofText text) ↔
        workspace.below names = workspace.below others)

theorem addressed_of_resolve (hgrounded : disk.Grounded) {text : Text}
    (hcircle : ∀ circle, disk.resolution (Path.ofText text) ≠ .circled circle) {names : List Text}
    (hne : names ≠ []) (h : disk.resolve (Path.ofText text) = .ok (workspace.below names)) :
    workspace.Addressed disk (Path.ofText text) names := by
  have hnames := names_of_resolve hgrounded hcircle h
  have huri := uri?_below hne h
  refine ⟨⟨address names, huri, ?_, ?_, project?_address hnames⟩, ?_⟩
  · rw [parse_address hnames]
  · rw [parse_address hnames]
  · intro other others hothers hclear hother
    have hlast := names_of_resolve hgrounded hclear hother
    rw [huri, uri?_below hothers hother]
    constructor
    · intro haddress
      rw [(address_inj hnames hlast).mp (Option.some.inj (Except.ok.inj haddress))]
    · intro hbelow
      rw [below_injective hbelow]

-- A path whose resolution meets no circle has no answer if its links lead too deeply into each
-- other. Otherwise the resolution goes to an end, where no link is left if the system takes the
-- spelling of the way. Of whatever the path is resolved to, the URI is exact: there is none
-- outside the root, and below it has the names from there on.
theorem uri?_exact (workspace : Workspace) (hgrounded : disk.Grounded) (hdisk : disk.NullFree)
    {text : Text} (hnull : '\x00' ∉ text)
    (hcircle : ∀ circle, disk.resolution (Path.ofText text) ≠ .circled circle) :
    let path := Path.ofText text
    (disk.resolution path = .failed .tooDeep ∧ workspace.uri? disk path = .error .tooDeep) ∨
    ∃ met way, disk.resolution path = .arrived met way ∧
      (way.origin = .root ∨ Utf8.size way.path.text < Disk.pathLimit →
        disk.resolve path = .ok ⟨.root, way.place disk⟩) ∧
      (Utf8.size way.path.text < Disk.pathLimit → disk.Linkless (way.place disk)) ∧
      ∀ resolved, disk.resolve path = .ok resolved →
        (workspace.uri? disk path = .ok none ↔
          ∀ names, names ≠ [] → resolved ≠ workspace.below names) ∧
        ∀ names, names ≠ [] → resolved = workspace.below names →
          workspace.Addressed disk path names := by
  intro path
  cases hresolution : disk.resolution path with
  | circled circle => exact absurd hresolution (hcircle circle)
  | failed failure =>
      obtain rfl := Disk.resolution_failed hdisk hnull hresolution
      have hresolve : disk.resolve path = .error .tooDeep := by rw [Disk.resolve, hresolution]
      exact Or.inl ⟨rfl, by simp only [uri?, hresolve]⟩
  | arrived met way =>
      refine Or.inr ⟨met, way, rfl, ?_, ?_, ?_⟩
      · intro hspelled
        exact Disk.resolve_of_arrived hgrounded hresolution fun horigin =>
          hspelled.resolve_left horigin
      · exact Disk.linkless_of_arrived hgrounded hresolution
      · intro resolved hresolve
        refine ⟨uri?_outside_iff hresolve, ?_⟩
        rintro names hne rfl
        exact addressed_of_resolve hgrounded hcircle hne hresolve

-- A working folder that holds a workspace, a link to its project and a folder beside it.
private def besideDisk : Disk := {
  entries := [("home".toList, .folder [
    ("in".toList, .link "../home/ws/p".toList),
    ("ws".toList, .folder [("p".toList, .folder [("%41.proto".toList, .file [])])]),
    ("ws2".toList, .folder [("p".toList, .folder [("a.proto".toList, .file [])])])])]
  here := ["home".toList] }

private theorem besideDisk_grounded : besideDisk.Grounded := by
  refine ⟨by decide +kernel, ?_⟩
  intro name hmem
  obtain rfl := List.mem_singleton.mp hmem
  exact ⟨⟨by decide, by decide, by decide, by decide⟩, by decide⟩

private theorem besideDisk_nullFree : besideDisk.NullFree := by
  have hproject : ∀ name : Text,
      (Node.folder [("p".toList, .folder [(name, .file [])])]).Targets ('\x00' ∉ ·) :=
    fun name => by simp [Node.targets_folder, Node.targets_file]
  have hlink : (Node.link "../home/ws/p".toList).Targets ('\x00' ∉ ·) :=
    Node.targets_link (by decide)
  refine Disk.nullFree_of_root (Node.targets_folder ?_)
  rintro ⟨name, node⟩ hmem
  obtain ⟨-, rfl⟩ := Prod.mk.inj (List.mem_singleton.mp hmem)
  exact Node.targets_folder (by simpa using ⟨hlink, hproject _, hproject _⟩)

private def besideWorkspace : Workspace := ⟨⟨.root, ["home".toList, "ws".toList]⟩⟩

-- A name that looks like an escape, reached by a link and by a folder that is not there.
theorem uri?_exact_through_link :
    let path := Path.ofText "in//./%41.proto".toList
    let other := Path.ofText "ws2/../ws/none/../p/%41.proto/".toList
    let uri := besideWorkspace.uri? besideDisk path
    uri = besideWorkspace.uri? besideDisk other ∧
    ∃ written, uri = .ok (some written) ∧
      (Uri.parse written).segments = ["resource".toList, "p".toList, "%41.proto".toList] ∧
      (Uri.parse written).project? = some "p".toList := by
  intro path other uri
  have harrived : besideDisk.resolution path = .arrived
      [(⟨.above 0, ["in".toList]⟩, some ⟨.above 1, ["home".toList, "ws".toList, "p".toList]⟩),
        (⟨.above 0, ["in".toList]⟩, none)]
      ⟨.above 1, ["home".toList, "ws".toList, "p".toList, "%41.proto".toList]⟩ := by
    decide +kernel
  have hother : besideDisk.resolution other =
      .arrived [] ⟨.above 0, ["ws".toList, "p".toList, "%41.proto".toList]⟩ := by decide +kernel
  have hnull : '\x00' ∉ "in//./%41.proto".toList := by decide
  obtain ⟨hdeep, -⟩ | ⟨met, way, hway, hresolve, -, hexact⟩ :=
    uri?_exact besideWorkspace besideDisk_grounded besideDisk_nullFree hnull
      (fun circle => by rw [harrived]; simp)
  · rw [harrived] at hdeep
    cases hdeep
  rw [harrived] at hway
  cases hway
  obtain ⟨-, hbelow⟩ := hexact _ (hresolve (Or.inr (by decide +kernel)))
  obtain ⟨⟨written, huri, -, hsegments, hproject⟩, hsame⟩ :=
    hbelow ["p".toList, "%41.proto".toList] (by decide) (by decide +kernel)
  have hlast : uri = besideWorkspace.uri? besideDisk other :=
    (hsame "ws2/../ws/none/../p/%41.proto/".toList ["p".toList, "%41.proto".toList] (by decide)
      (fun circle => by rw [hother]; simp) (by decide +kernel)).mpr (by decide +kernel)
  exact ⟨hlast, written, huri, hsegments, hproject⟩

section Chained

variable {here : Location} {length : Nat} (hsize : (Text.ofNat length).length ≤ 1000)

include hsize

-- The file at the end of a chain in the root has the URI of its name, and the first link has none.
theorem uri?_chain_end (workspace : Workspace) (hroot : workspace.root = ⟨.root, here⟩)
    (hhere : ∀ name ∈ here, IsName name ∧ '/' ∉ name) :
    workspace.uri? (.chained here length) (Path.ofText (Text.ofNat length)) =
      .ok (some (address [Text.ofNat length])) := by
  refine uri?_below (List.cons_ne_nil _ _) ?_
  rw [below, hroot]
  exact Disk.resolve_chain_end hsize hhere

theorem uri?_chain (workspace : Workspace) (hlong : Disk.depthLimit < length) :
    workspace.uri? (.chained here length) (Path.ofText (Text.ofNat 0)) = .error .tooDeep := by
  simp only [uri?, Disk.resolve, Disk.resolution_chain hsize hlong]

end Chained

-- Each link of a chain leads to the next one and the last one to a file of the workspace, and yet
-- the first one has no URI and is not said to be outside.
theorem uri?_long_chain :
    let disk := Disk.chained ["home".toList] 1200
    let workspace : Workspace := ⟨⟨.root, ["home".toList]⟩⟩
    ofRoot disk (Path.ofText ".".toList) = .ok workspace ∧ disk.Grounded ∧ disk.NullFree ∧
    (∀ i < 1200, disk.link? ["home".toList, Text.ofNat i] = some (Text.ofNat (i + 1))) ∧
    disk.at? ["home".toList, Text.ofNat 1200] = some (.file []) ∧
    (∀ circle, disk.resolution (Path.ofText (Text.ofNat 0)) ≠ .circled circle) ∧
    workspace.uri? disk (Path.ofText (Text.ofNat 1200)) =
      .ok (some (address [Text.ofNat 1200])) ∧
    workspace.uri? disk (Path.ofText (Text.ofNat 0)) = .error .tooDeep := by
  intro disk workspace
  have hsize : (Text.ofNat 1200).length ≤ 1000 := by decide
  have hhere : ∀ name ∈ ["home".toList], IsName name ∧ '/' ∉ name := by
    intro name hmem
    obtain rfl := List.mem_singleton.mp hmem
    exact ⟨⟨by decide, by decide, by decide, by decide⟩, by decide⟩
  have hgrounded : disk.Grounded := Disk.chained_grounded hhere
  refine ⟨?_, hgrounded, Disk.chained_nullFree, fun i hi => Disk.chained_link? hi,
    Disk.chained_end, fun circle => ?_, uri?_chain_end hsize workspace rfl hhere,
    uri?_chain hsize workspace (by decide)⟩
  · rw [ofRoot, Disk.resolve_here hgrounded]
    rfl
  · rw [Disk.resolution_chain hsize (by decide)]
    simp

end WorkspaceImports.Workspace

import WorkspaceImports.Proofs.Disk.Lexical

namespace WorkspaceImports

theorem Node.at?_append (node : Node) (place more : Location) :
    node.at? (place ++ more) = (node.at? place).bind (·.at? more) := by
  induction place generalizing node with
  | nil => rfl
  | cons name rest ih =>
      cases node with
      | file content => rfl
      | link target => rfl
      | folder entries =>
          simp only [List.cons_append, at?]
          cases entries.lookup name with
          | none => rfl
          | some child => exact ih child

namespace Disk

-- The working folder is a folder of the disk, and a path may name each folder on the way to it.
structure Grounded (disk : Disk) : Prop where
  folder : disk.isFolder disk.here = true
  names : ∀ name ∈ disk.here, IsName name ∧ '/' ∉ name

theorem Grounded.linkless {disk : Disk} (h : disk.Grounded) : disk.Linkless disk.here := by
  intro more _ hmore
  obtain ⟨rest, hhere⟩ := hmore
  have hfolder := h.folder
  rw [isFolder, at?, ← hhere, Node.at?_append] at hfolder
  unfold link? at?
  cases hnode : disk.root.at? more with
  | none => rfl
  | some node =>
      cases node with
      | file content => rfl
      | folder entries => rfl
      | link target => cases rest <;> simp [hnode, Node.at?, Node.entry] at hfolder

-- A path from the root that goes by names alone and on which no link is left.
structure Settled (disk : Disk) (path : Path) : Prop where
  anchor : path.anchor = .root
  names : ∀ name ∈ path.names, IsName name ∧ '/' ∉ name
  straight : (Way.mk .root path.names).Straight disk

theorem Settled.resolve_eq_self {disk : Disk} {path : Path} (h : disk.Settled path)
    (hfind : disk.find path ≠ .error .linkLoop) : disk.resolve path = .ok path :=
  Disk.resolve_eq_self h.anchor (fun name hmem => (h.names name hmem).1) h.straight hfind

-- A straight way from the working folder is straight from the root on, if the system takes its
-- spelling and so was asked about each of its names.
theorem straight_of_above {disk : Disk} {count : Nat} {names : List Text} (hhere : disk.Grounded)
    (hstraight : (Way.mk (.above count) names).Straight disk)
    (hsize : Utf8.size (Way.mk (.above count) names).path.text < pathLimit) :
    disk.Linkless ((Way.mk (.above count) names).place disk) := by
  intro more hne hmore
  rcases List.prefix_or_prefix_of_prefix hmore (List.prefix_append _ names) with hmore | hbeyond
  · exact hhere.linkless more hne (hmore.trans (List.take_prefix _ _))
  · obtain ⟨shorter, rfl⟩ := hbeyond
    have hshorter : shorter <+: names := (List.prefix_append_right_inj _).mp hmore
    by_cases hnil : shorter = []
    · subst hnil
      exact hhere.linkless _ hne (by simpa using List.take_prefix _ _)
    · have hlink := hstraight shorter hnil hshorter
      have hspelled : List.replicate count ['.', '.'] ++ shorter <+:
          List.replicate count ['.', '.'] ++ names := (List.prefix_append_right_inj _).mpr hshorter
      have hshort : Utf8.size (Way.mk (.above count) shorter).path.text < pathLimit :=
        Nat.lt_of_le_of_lt (Path.size_le hspelled (Or.inr (by simp [hnil]))) hsize
      cases htarget : disk.link? (disk.here.take (disk.here.length - count) ++ shorter) with
      | none => rfl
      | some target => simp [Way.link?, Way.place, htarget, hshort] at hlink

-- Where a resolution arrives is settled. A way that still starts at the working folder has to
-- have a spelling that the system takes.
theorem settled_of_arrived {disk : Disk} {path : Path} {met : Met} {way : Way}
    (hpath : ∀ name ∈ path.names, '/' ∉ name) (h : disk.resolution path = .arrived met way)
    (hhere : way.origin ≠ .root → disk.Grounded ∧ Utf8.size way.path.text < pathLimit) :
    disk.Settled ⟨.root, way.place disk⟩ := by
  have hnames := resolution_names h (fun _ _ hmem => Text.mem_splitOn_notMem hmem) hpath
  have hstraight := resolution_straight h
  obtain ⟨origin, names⟩ := way
  cases origin with
  | root => exact ⟨rfl, hnames, hstraight⟩
  | above count =>
      obtain ⟨hgrounded, hsize⟩ := hhere (by simp)
      refine ⟨rfl, ?_, (straight_of_above hgrounded hstraight hsize).straight⟩
      intro name hmem
      rcases List.mem_append.mp hmem with hmem | hmem
      · exact hgrounded.names name (List.mem_of_mem_take hmem)
      · exact hnames name hmem

end Disk

end WorkspaceImports

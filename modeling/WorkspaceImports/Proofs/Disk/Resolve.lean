import WorkspaceImports.Proofs.Disk.Locate

namespace WorkspaceImports

namespace Path

theorem mem_collapse {before names : List Text} {name : Text} (h : name ∈ collapse before names) :
    name ∈ before ∨ (name ∈ names ∧ name ≠ ['.', '.']) := by
  induction names generalizing before with
  | nil => exact Or.inl h
  | cons first rest ih =>
      unfold collapse at h
      split at h
      · rcases ih h with hbefore | ⟨hrest, hdots⟩
        · exact Or.inl (List.dropLast_subset _ hbefore)
        · exact Or.inr ⟨List.mem_cons_of_mem _ hrest, hdots⟩
      · rename_i hdots
        rcases ih h with hbefore | ⟨hrest, hne⟩
        · rcases List.mem_append.mp hbefore with hbefore | hfirst
          · exact Or.inl hbefore
          · rw [List.mem_singleton.mp hfirst]
            exact Or.inr ⟨List.mem_cons_self, hdots⟩
        · exact Or.inr ⟨List.mem_cons_of_mem _ hrest, hne⟩

theorem hasNull_eq_false_iff (path : Path) :
    path.hasNull = false ↔ ∀ name ∈ path.names, '\x00' ∉ name := by
  simp [hasNull]

end Path

namespace Disk

variable {disk : Disk} {path resolved : Path}

theorem settle_eq_ok_iff : disk.settle path = .ok resolved ↔
    resolved = path ∧ path.hasNull = false ∧ disk.find path ≠ .error .linkLoop := by
  unfold settle
  cases hnull : path.hasNull with
  | true => simp
  | false =>
      simp only [Bool.false_eq_true, if_false, true_and]
      split
      · rename_i hfind
        simp [hfind]
      · rename_i hfind
        constructor
        · intro h
          exact ⟨(Except.ok.inj h).symm, hfind⟩
        · rintro ⟨rfl, -⟩
          rfl

-- What a path is resolved to can be handed to the system and leads in no circle. It is the place
-- of the way the resolution went, or by its spelling what the resolution gave up at.
theorem resolve_eq_ok_iff : disk.resolve path = .ok resolved ↔
    ((∃ met way, disk.resolution path = .arrived met way ∧ resolved = ⟨.root, way.place disk⟩) ∨
      ∃ circle, disk.resolution path = .circled circle ∧ resolved = disk.absolute circle) ∧
    resolved.hasNull = false ∧ disk.find resolved ≠ .error .linkLoop := by
  unfold resolve
  cases houtcome : disk.resolution path with
  | arrived met way =>
      simp only [settle_eq_ok_iff, Outcome.arrived.injEq, reduceCtorEq, false_and, exists_false,
        or_false]
      constructor
      · rintro ⟨rfl, hnull, hfind⟩
        exact ⟨⟨met, way, ⟨rfl, rfl⟩, rfl⟩, hnull, hfind⟩
      · rintro ⟨⟨_, _, ⟨rfl, rfl⟩, rfl⟩, hnull, hfind⟩
        exact ⟨rfl, hnull, hfind⟩
  | circled circle =>
      simp only [settle_eq_ok_iff, Outcome.circled.injEq, reduceCtorEq, false_and, exists_false,
        false_or]
      constructor
      · rintro ⟨rfl, hnull, hfind⟩
        exact ⟨⟨circle, rfl, rfl⟩, hnull, hfind⟩
      · rintro ⟨⟨_, rfl, rfl⟩, hnull, hfind⟩
        exact ⟨rfl, hnull, hfind⟩
  | failed failure => simp

theorem absolute_anchor (disk : Disk) (path : Path) : (disk.absolute path).anchor ≠ .here := by
  unfold absolute
  split
  · rename_i hanchor
    simp [Path.join, hanchor, Path.normalize]
  · rename_i hanchor
    exact hanchor

theorem resolve_anchor (h : disk.resolve path = .ok resolved) : resolved.anchor ≠ .here := by
  obtain ⟨⟨met, way, _, rfl⟩ | ⟨circle, _, rfl⟩, _⟩ := resolve_eq_ok_iff.mp h
  · simp
  · exact absolute_anchor disk circle

-- A resolution from the root gives up at a path from the root, in which no piece is empty or a
-- single dot.
theorem resolution_circle {circle : Path} (hanchor : path.anchor ≠ .here)
    (h : disk.resolution path = .circled circle) :
    circle.anchor ≠ .here ∧ ∀ name ∈ circle.names, name ≠ [] ∧ name ≠ ['.'] := by
  have hkept : Kept disk (fun _ => True)
      (fun way => way.origin = .root ∧ ∀ name ∈ way.names, name ≠ [] ∧ name ≠ ['.'])
      (fun circle => circle.anchor ≠ .here ∧ ∀ name ∈ circle.names, name ≠ [] ∧ name ≠ ['.']) := {
    pieces := fun _ _ _ => trivial
    root := ⟨rfl, by simp⟩
    parent := fun way ⟨horigin, hnames⟩ => ⟨Way.parent_origin horigin,
      fun name hmem => hnames name (way.parent_names_prefix.subset hmem)⟩
    child := fun _ _ ⟨horigin, hnames⟩ _ hname _ =>
      ⟨horigin, Way.forall_mem_child hnames ⟨hname.ne_nil, hname.ne_dot⟩⟩
    circle := by
      rintro ⟨origin, names⟩ piece ⟨rfl, hnames⟩ _ hname
      exact ⟨by simp [Way.path, Way.child],
        Way.forall_mem_child hnames ⟨hname.ne_nil, hname.ne_dot⟩⟩
    join := by
      rintro circle rest ⟨hcircle, hnames⟩
      have hrest : ∀ name ∈ (Path.ofPieces rest).names, name ≠ [] ∧ name ≠ ['.'] :=
        fun name => Path.mem_ofPieces
      unfold Path.join
      split
      · refine ⟨hcircle, ?_⟩
        intro name hmem
        rcases List.mem_append.mp hmem with hmem | hmem
        · exact hnames name hmem
        · exact hrest name hmem
      · rename_i hroot
        exact ⟨hroot, hrest⟩ }
  have hend := hkept.resolution (by simp [hanchor])
    (fun name (_ : name ∈ path.names) => trivial)
  rw [h] at hend
  exact hend

-- A path with a root is resolved to names, whether or not a circle was met.
theorem isName_of_resolve (hanchor : path.anchor ≠ .here)
    (h : disk.resolve path = .ok resolved) : ∀ name ∈ resolved.names, IsName name := by
  obtain ⟨⟨met, way, harrived, rfl⟩ | ⟨circle, hcircled, rfl⟩, hnull, _⟩ := resolve_eq_ok_iff.mp h
  · have horigin := resolution_origin harrived hanchor
    intro name hmem
    simp only [Way.place, horigin] at hmem
    exact (resolution_names (Q := fun _ => True) harrived (fun _ _ _ => trivial)
      (fun _ _ => trivial) name hmem).1
  · obtain ⟨hcircle, hnames⟩ := resolution_circle hanchor hcircled
    have habsolute : (disk.absolute circle).names = Path.collapse [] circle.names := by
      unfold absolute
      split
      · rename_i hhere
        exact absurd hhere hcircle
      · rfl
    intro name hmem
    have hnonull := (Path.hasNull_eq_false_iff _).mp hnull name hmem
    rw [habsolute] at hmem
    rcases Path.mem_collapse hmem with hmem | ⟨hmem, hdots⟩
    · cases hmem
    · exact ⟨(hnames name hmem).1, (hnames name hmem).2, hdots, hnonull⟩

end Disk

end WorkspaceImports

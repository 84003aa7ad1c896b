import WorkspaceImports.Proofs.Disk.Walk
import WorkspaceImports.Proofs.Workspace.Confinement

namespace WorkspaceImports

open Disk (IsName)

theorem Path.collapse_of_notMem {names : List Text} (before : List Text)
    (h : ['.', '.'] ∉ names) : collapse before names = before ++ names := by
  induction names generalizing before with
  | nil => simp [collapse]
  | cons name rest ih =>
      have hname : name ≠ ['.', '.'] := fun he => h (he ▸ List.mem_cons_self)
      rw [collapse, if_neg hname, ih _ (List.not_mem_of_not_mem_cons h)]
      simp

-- A segment that stands for a name as it is written.
structure Uri.Plain (segment : Text) : Prop extends IsName segment where
  noSlash : '/' ∉ segment
  noPercent : '%' ∉ segment

instance (segment : Text) : Decidable (Uri.Plain segment) :=
  decidable_of_iff ((segment ≠ [] ∧ segment ≠ ['.'] ∧ segment ≠ ['.', '.'] ∧ '\x00' ∉ segment) ∧
    '/' ∉ segment ∧ '%' ∉ segment)
    ⟨fun ⟨⟨hne, hdot, hdots, hnull⟩, hslash, hpercent⟩ =>
      ⟨⟨hne, hdot, hdots, hnull⟩, hslash, hpercent⟩,
    fun h => ⟨⟨h.ne_nil, h.ne_dot, h.ne_dots, h.noNull⟩, h.noSlash, h.noPercent⟩⟩

-- A segment that is read as one name as it is written. It may hold a null character.
structure Uri.Literal (segment : Text) : Prop where
  ne_nil : segment ≠ []
  noSlash : '/' ∉ segment
  noPercent : '%' ∉ segment
  ne_dot : segment ≠ ['.']
  ne_dots : segment ≠ ['.', '.']

theorem Uri.Plain.literal {segment : Text} (h : Uri.Plain segment) : Uri.Literal segment :=
  ⟨h.ne_nil, h.noSlash, h.noPercent, h.ne_dot, h.ne_dots⟩

namespace Workspace

variable {workspace : Workspace} {disk other : Disk} {uri : Uri}

-- The root is a path of names from the root of the disk.
structure Rooted (workspace : Workspace) : Prop where
  anchor : workspace.root.anchor = .root
  names : ∀ name ∈ workspace.root.names, IsName name

theorem Rooted.eq {workspace : Workspace} (h : workspace.Rooted) :
    workspace.root = ⟨.root, workspace.root.names⟩ := by
  rw [← h.anchor]

theorem Rooted.notMem_dots (h : workspace.Rooted) : ['.', '.'] ∉ workspace.root.names :=
  fun hmem => (h.names _ hmem).ne_dots rfl

-- Without links a root is the folder that its spelling leads to, whether or not it exists.
theorem ofRoot_unlinked (hlinks : disk.Unlinked) {root : Path}
    (hhere : ∀ name ∈ disk.here, IsName name) :
    ofRoot disk root =
      if root.hasNull then .error .nullCharacter
      else .ok ⟨.root, Path.collapse (disk.start root) (Disk.counted root.names)⟩ := by
  rw [ofRoot, Disk.resolve_unlinked hlinks root fun _ => hhere]
  split <;> rfl

theorem rooted_of_ofRoot (hlinks : disk.Unlinked) {root : Path}
    (hhere : ∀ name ∈ disk.here, IsName name) (h : ofRoot disk root = .ok workspace) :
    workspace.Rooted := by
  rw [ofRoot_unlinked hlinks hhere] at h
  split at h
  · cases h
  rename_i hnull
  cases h
  refine ⟨rfl, fun name hmem => ?_⟩
  rcases Path.mem_collapse hmem with hstart | ⟨hcounted, hdots⟩
  · unfold Disk.start at hstart
    split at hstart
    · exact hhere name hstart
    · cases hstart
  · obtain ⟨hname, hkeep⟩ := List.mem_filter.mp hcounted
    have hkeep : name ≠ [] ∧ name ≠ ['.'] := by simpa using hkeep
    exact ⟨hkeep.1, hkeep.2, hdots,
      (Path.hasNull_eq_false_iff root).mp (by simpa using hnull) name hname⟩

-- Behind a root pieces lead on from it.
theorem Rooted.collapse_counted (h : workspace.Rooted) (pieces : List Text) :
    Path.collapse [] (Disk.counted (workspace.root.names ++ pieces)) =
      Path.collapse workspace.root.names (Disk.counted pieces) := by
  have hroot : Disk.counted workspace.root.names = workspace.root.names :=
    Disk.counted_eq_self fun name hmem => ⟨(h.names name hmem).ne_nil, (h.names name hmem).ne_dot⟩
  rw [Disk.counted_append, hroot, Path.collapse_append, Path.collapse_of_notMem [] h.notMem_dots,
    List.nil_append]

theorem Rooted.below?_append (h : workspace.Rooted) (names : List Text) :
    workspace.root.below? ⟨.root, workspace.root.names ++ names⟩ = some names := by
  simp [Path.below?, h.anchor]

-- A root that is resolved is resolved to itself.
theorem Rooted.ofRoot_eq (h : workspace.Rooted) (hlinks : disk.Unlinked)
    (hhere : ∀ name ∈ disk.here, IsName name) :
    ofRoot disk workspace.root = .ok workspace := by
  have hnull : workspace.root.hasNull = false :=
    (Path.hasNull_eq_false_iff _).mpr fun name hmem => (h.names name hmem).noNull
  have hcollapse := h.collapse_counted []
  rw [List.append_nil] at hcollapse
  have hstart : disk.start workspace.root = [] := if_neg (by simp [h.anchor])
  rw [ofRoot_unlinked hlinks hhere, hnull, hstart, hcollapse]
  exact congrArg (fun root => Except.ok (Workspace.mk root)) h.eq.symm

-- Where a path leads on a disk without links depends on its spelling alone.
theorem leadsTo_unlinked (hlinks : disk.Unlinked) {path : Path} (hanchor : path.anchor ≠ .here) :
    workspace.leadsTo disk path =
      if path.hasNull then .error .nullCharacter
      else
        let names := Path.collapse [] (Disk.counted path.names)
        .ok (if (workspace.root.below? ⟨.root, names⟩).isSome then .inside ⟨.root, names⟩
          else .outside) := by
  have hresolve := Disk.resolve_unlinked hlinks path (fun h => absurd h hanchor)
  rw [Disk.start, if_neg hanchor] at hresolve
  simp only [leadsTo, hresolve]
  cases path.hasNull <;> rfl

-- So does what a URI means.
theorem target_unlinked (hlinks : disk.Unlinked) (hroot : workspace.Rooted)
    (text word segment : Text) (rest : List Text) :
    workspace.target disk ⟨text, .workspace, word :: segment :: rest⟩ =
      if (workspace.pathOf (segment :: rest)).hasNull then .error .nullCharacter
      else
        let names := Path.collapse []
          (Disk.counted (workspace.pathOf (segment :: rest)).names)
        .ok (if (workspace.root.below? ⟨.root, names⟩).isSome then .inside ⟨.root, names⟩
          else .outside) :=
  leadsTo_unlinked hlinks (workspace.pathOf_anchor (by simp [hroot.anchor]) _)

theorem target_eq_of_unlinked (hlinks : disk.Unlinked) (hothers : other.Unlinked)
    (hroot : workspace.Rooted) (uri : Uri) :
    workspace.target disk uri = workspace.target other uri := by
  obtain ⟨text, scheme, segments⟩ := uri
  rcases segments with _ | ⟨word, _ | ⟨segment, rest⟩⟩
  · cases scheme <;> rfl
  · cases scheme <;> rfl
  cases scheme with
  | file => rfl
  | unknown => rfl
  | workspace => rw [target_unlinked hlinks hroot, target_unlinked hothers hroot]

theorem file?_eq_of_unlinked (hlinks : disk.Unlinked) (hothers : other.Unlinked)
    (hroot : workspace.Rooted) (uri : Uri) :
    workspace.file? disk uri = workspace.file? other uri := by
  simp only [file?, workspace.target_eq_of_unlinked hlinks hothers hroot]

-- Names below the root lead to the file at their place.
theorem holdsAt_below (hlinks : disk.Unlinked) (hroot : workspace.Rooted) (wording : Wording)
    {names : List Text} (hnames : ∀ name ∈ names, name ≠ [] ∧ name ≠ ['.'])
    (hdots : ['.', '.'] ∉ names) :
    let path : Path := ⟨.root, workspace.root.names ++ names⟩
    holdsAt disk (workspace.inside? wording (workspace.leadsTo disk path)) =
      if ∀ name ∈ names, '\x00' ∉ name then ⟨disk.isFile? path, []⟩
      else ⟨.error .nullCharacter, []⟩ := by
  intro path
  have hcollapse : Path.collapse [] (Disk.counted path.names) = workspace.root.names ++ names := by
    rw [hroot.collapse_counted, Disk.counted_eq_self hnames, Path.collapse_of_notMem _ hdots]
  have hnull : path.hasNull = false ↔ ∀ name ∈ names, '\x00' ∉ name := by
    rw [Path.hasNull_eq_false_iff, List.forall_mem_append]
    exact and_iff_right fun name hmem => (hroot.names name hmem).noNull
  have hanchor : path.anchor ≠ .here := by simp [path]
  simp only [leadsTo_unlinked hlinks hanchor, hcollapse, hroot.below?_append, Option.isSome_some,
    if_true, ← hnull]
  cases path.hasNull <;> rfl

theorem notMem_of_ofRoot (hlinks : disk.Unlinked)
    (hhere : ∀ name ∈ disk.here, IsName name ∧ '/' ∉ name) {root : Text}
    (hroot : ofRoot disk (Path.ofText root) = .ok workspace) :
    ∀ name ∈ workspace.root.names, '/' ∉ name := by
  intro name hmem
  rw [ofRoot_unlinked hlinks fun name hmem => (hhere name hmem).1] at hroot
  split at hroot
  · cases hroot
  cases hroot
  rcases Path.mem_collapse hmem with hstart | ⟨hcounted, -⟩
  · unfold Disk.start at hstart
    split at hstart
    · exact (hhere name hstart).2
    · cases hstart
  · exact (Path.mem_ofText (List.mem_filter.mp hcounted).1).2.2

-- Each name on the way to a resource's file is one name.
theorem isName_of_file? (hlinks : disk.Unlinked) (hroot : workspace.Rooted)
    (hslash : ∀ name ∈ workspace.root.names, '/' ∉ name) {path : Path}
    (h : (workspace.file? disk uri).value = .ok (some path)) :
    ∀ name ∈ path.names, IsName name ∧ '/' ∉ name := by
  obtain ⟨-, -, hresolve, -⟩ := file?_eq_some_iff.mp h
  have hanchor : (workspace.pathOf uri.segments.tail).anchor ≠ .here :=
    workspace.pathOf_anchor (by simp [hroot.anchor]) _
  intro name hmem
  refine ⟨Disk.isName_of_resolve hanchor hresolve name hmem, ?_⟩
  rw [Disk.resolve_unlinked hlinks _ (fun hhere => absurd hhere hanchor), Disk.start,
    if_neg hanchor] at hresolve
  split at hresolve
  · cases hresolve
  cases hresolve
  rcases Path.mem_collapse hmem with hstart | ⟨hcounted, -⟩
  · cases hstart
  · rcases mem_pathOf (List.mem_filter.mp hcounted).1 with hname | ⟨_, -, hname⟩
    · exact hslash name hname
    · exact (Path.mem_ofText hname).2.2

end Workspace

end WorkspaceImports

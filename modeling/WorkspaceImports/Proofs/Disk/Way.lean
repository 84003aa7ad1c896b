import WorkspaceImports.Disk.Resolve

namespace WorkspaceImports.Disk

-- A piece of a path that names an entry of a folder: it is neither empty nor made of dots alone,
-- and the system takes it.
structure IsName (piece : Text) : Prop where
  ne_nil : piece ≠ []
  ne_dot : piece ≠ ['.']
  ne_dots : piece ≠ ['.', '.']
  noNull : '\x00' ∉ piece

-- Every way that a link met before is known to lead to has the property.
def Met.All (P : Way → Prop) (met : Met) : Prop :=
  ∀ way reached, (way, some reached) ∈ met → P reached

-- An outcome whose ways have one property, or whose circle has another.
def Outcome.Keeps (P : Way → Prop) (C : Path → Prop) : Outcome → Prop
  | .arrived met way => met.All P ∧ P way
  | .circled path => C path
  | .failed _ => True

-- What a resolution keeps at each of its steps: a property `P` of the ways it goes, and a property
-- `C` of the paths it gives up at. `Q` holds of the pieces it goes along, and of those of every
-- target a link may have.
structure Kept (disk : Disk) (Q : Text → Prop) (P : Way → Prop) (C : Path → Prop) : Prop where
  pieces : ∀ target : Text, ∀ piece ∈ target.splitOn '/', Q piece
  root : P ⟨.root, []⟩
  parent : ∀ way : Way, P way → P way.parent
  child : ∀ (way : Way) name, P way → Q name → IsName name →
    (way.child name).link? disk = none → P (way.child name)
  circle : ∀ (way : Way) name, P way → Q name → IsName name → C (way.child name).path
  join : ∀ (path : Path) rest, C path → C (path.join (Path.ofPieces rest))

namespace Kept

variable {disk : Disk} {Q : Text → Prop} {P : Way → Prop} {C : Path → Prop}

theorem lookup {met : Met} (hmet : met.All P) {way known : Way}
    (h : met.lookup way = some (some known)) : P known := by
  obtain ⟨before, after, rfl, _⟩ := List.lookup_eq_some_iff.mp h
  exact hmet way known (by simp)

theorem entering (hkept : Kept disk Q P C) {way : Way} (hway : P way) (target : Text) :
    P (way.entering target) := by
  unfold Way.entering
  split
  · exact hway
  · exact hkept.root

-- One stretch of a resolution, along the pieces of one path.
theorem advance (hkept : Kept disk Q P C) (enter : Met → Way → Text → Outcome)
    (henter : ∀ met way target, met.All P → P way → (enter met way target).Keeps P C)
    {met : Met} {way : Way} {pieces : List Text} (hmet : met.All P) (hway : P way)
    (hpieces : ∀ piece ∈ pieces, Q piece) :
    (Disk.advance disk enter met way pieces).Keeps P C := by
  induction pieces generalizing met way with
  | nil => exact ⟨hmet, hway⟩
  | cons piece rest ih =>
      have hrest : ∀ piece ∈ rest, Q piece := fun p hp => hpieces p (List.mem_cons_of_mem _ hp)
      have hpiece := hpieces piece List.mem_cons_self
      unfold Disk.advance
      split
      · exact ih hmet hway hrest
      rename_i hempty
      split
      · exact ih hmet (hkept.parent way hway) hrest
      rename_i hdots
      split
      · trivial
      rename_i hnull
      have hname : IsName piece := ⟨fun he => hempty (Or.inl he), fun he => hempty (Or.inr he),
        hdots, by simpa using hnull⟩
      have hcircle := hkept.circle way piece hway hpiece hname
      dsimp only
      split
      · rename_i hlink
        exact ih hmet (hkept.child way piece hway hpiece hname hlink) hrest
      rename_i target hlink
      split
      · rename_i known hknown
        exact ih hmet (lookup hmet hknown) hrest
      · exact hkept.join _ _ hcircle
      · have hnew : Met.All P ((way.child piece, none) :: met) := by
          intro other reached hmem
          exact hmet other reached (by simpa using hmem)
        have hthere := henter _ way target hnew hway
        split
        · rename_i metThere reached houtcome
          rw [houtcome] at hthere
          refine ih ?_ hthere.2 hrest
          intro other known hmem
          rcases List.mem_cons.mp hmem with he | hmem
          · cases he
            exact hthere.2
          · exact hthere.1 other known hmem
        · rename_i path houtcome
          rw [houtcome] at hthere
          exact hkept.join _ _ hthere
        · trivial

-- Links followed within each other keep it too, however deep.
theorem unwind (hkept : Kept disk Q P C) (depth : Nat) {met : Met} {way : Way}
    {pieces : List Text} (hmet : met.All P) (hway : P way) (hpieces : ∀ piece ∈ pieces, Q piece) :
    (Disk.unwind disk depth met way pieces).Keeps P C := by
  induction depth generalizing met way pieces with
  | zero =>
      exact hkept.advance (fun _ _ _ => .failed .tooDeep) (fun _ _ _ _ _ => trivial) hmet hway
        hpieces
  | succ depth ih =>
      refine hkept.advance _ ?_ hmet hway hpieces
      intro met way target hmet hway
      exact ih hmet (hkept.entering hway target) (hkept.pieces target)

-- So the outcome of a resolution has what its start has.
theorem resolution (hkept : Kept disk Q P C) {path : Path}
    (hstart : P ⟨if path.anchor = .here then .above 0 else .root, []⟩)
    (hpieces : ∀ name ∈ path.names, Q name) : (disk.resolution path).Keeps P C := by
  have hmet : Met.All P [] := by
    intro _ _ hmem
    cases hmem
  exact hkept.unwind depthLimit hmet hstart hpieces

end Kept

namespace Way

theorem parent_names_prefix (way : Way) : way.parent.names <+: way.names := by
  obtain ⟨origin, names⟩ := way
  cases origin <;> cases names <;> simp [parent, List.dropLast_prefix]

theorem parent_origin {way : Way} (h : way.origin = .root) : way.parent.origin = .root := by
  obtain ⟨origin, names⟩ := way
  subst h
  cases names <;> rfl

theorem forall_mem_child {way : Way} {piece : Text} {R : Text → Prop}
    (hnames : ∀ name ∈ way.names, R name) (hpiece : R piece) :
    ∀ name ∈ (way.child piece).names, R name := by
  intro name hmem
  rcases List.mem_append.mp hmem with hmem | hmem
  · exact hnames name hmem
  · rw [List.mem_singleton.mp hmem]
    exact hpiece

-- A way on which no link is left to be followed, as far as its spelling can be handed to the
-- system.
def Straight (way : Way) (disk : Disk) : Prop :=
  ∀ names, names ≠ [] → names <+: way.names → ({ way with names } : Way).link? disk = none

theorem straight_nil (disk : Disk) (origin : Origin) : (Way.mk origin []).Straight disk := by
  intro names hne hnames
  exact absurd (List.prefix_nil.mp hnames) hne

theorem Straight.parent {way : Way} {disk : Disk} (h : way.Straight disk) :
    way.parent.Straight disk := by
  intro names hne hnames
  have hlink := h names hne (hnames.trans way.parent_names_prefix)
  obtain ⟨origin, others⟩ := way
  cases origin <;> cases others with
  | nil => exact absurd (List.prefix_nil.mp hnames) hne
  | cons name rest => exact hlink

theorem Straight.child {way : Way} {disk : Disk} {name : Text} (h : way.Straight disk)
    (hlink : (way.child name).link? disk = none) : (way.child name).Straight disk := by
  intro names hne hnames
  rcases List.prefix_concat_iff.mp hnames with rfl | hnames
  · exact hlink
  · exact h names hne hnames

end Way

section Resolution

variable {disk : Disk} {path : Path} {met : Met} {way : Way}

theorem resolution_straight (h : disk.resolution path = .arrived met way) : way.Straight disk := by
  have hkept : Kept disk (fun _ => True) (·.Straight disk) (fun _ => True) := {
    pieces := fun _ _ _ => trivial
    root := Way.straight_nil disk _
    parent := fun _ hway => hway.parent
    child := fun _ _ hway _ _ hlink => hway.child hlink
    circle := fun _ _ _ _ _ => trivial
    join := fun _ _ _ => trivial }
  have hend := hkept.resolution (Way.straight_nil disk _)
    (fun name (_ : name ∈ path.names) => trivial)
  rw [h] at hend
  exact hend.2

-- A path with a root is followed from the root on.
theorem resolution_origin (h : disk.resolution path = .arrived met way)
    (hanchor : path.anchor ≠ .here) : way.origin = .root := by
  have hkept : Kept disk (fun _ => True) (·.origin = .root) (fun _ => True) := {
    pieces := fun _ _ _ => trivial
    root := rfl
    parent := fun _ hway => Way.parent_origin hway
    child := fun _ _ hway _ _ _ => hway
    circle := fun _ _ _ _ _ => trivial
    join := fun _ _ _ => trivial }
  have hend := hkept.resolution (by rw [if_neg hanchor])
    (fun name (_ : name ∈ path.names) => trivial)
  rw [h] at hend
  exact hend.2

-- All that is left on the way are names. They are of the path or of links' targets, so what holds
-- of every piece of these holds of them.
theorem resolution_names {Q : Text → Prop} (h : disk.resolution path = .arrived met way)
    (htargets : ∀ target : Text, ∀ piece ∈ target.splitOn '/', Q piece)
    (hpath : ∀ name ∈ path.names, Q name) : ∀ name ∈ way.names, IsName name ∧ Q name := by
  have hkept : Kept disk Q (fun way => ∀ name ∈ way.names, IsName name ∧ Q name)
      (fun _ => True) := {
    pieces := htargets
    root := by simp
    parent := fun way hway name hmem => hway name (way.parent_names_prefix.subset hmem)
    child := fun _ _ hway hpiece hname _ => Way.forall_mem_child hway ⟨hname, hpiece⟩
    circle := fun _ _ _ _ _ => trivial
    join := fun _ _ _ => trivial }
  have hend := hkept.resolution (by simp) hpath
  rw [h] at hend
  exact hend.2

end Resolution

end WorkspaceImports.Disk

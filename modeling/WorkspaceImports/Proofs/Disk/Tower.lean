import WorkspaceImports.Proofs.Disk.Walk

namespace WorkspaceImports

namespace Node

section Targets

variable {p : Text → Prop}

-- The targets of all the links in a node have a property.
def Targets (p : Text → Prop) (node : Node) : Prop :=
  ∀ place target, node.at? place = some (.link target) → p target

theorem targets_file (content : List UInt8) : (file content).Targets p := by
  intro place target h
  cases place <;> simp [at?] at h

theorem targets_link {target : Text} (h : p target) : (link target).Targets p := by
  intro place other hlink
  cases place with
  | nil =>
      cases hlink
      exact h
  | cons name rest => simp [at?] at hlink

theorem targets_folder {entries : List (Text × Node)} (h : ∀ entry ∈ entries, entry.2.Targets p) :
    (folder entries).Targets p := by
  intro place target hlink
  cases place with
  | nil => simp [at?] at hlink
  | cons name rest =>
      rw [at?] at hlink
      obtain ⟨node, hentry, hnode⟩ := Option.bind_eq_some_iff.mp hlink
      obtain ⟨before, after, heq, -⟩ := List.lookup_eq_some_iff.mp hentry
      exact h (name, node) (by simp [heq]) rest target hnode

end Targets

-- Nothing in a node is a link.
def Unlinked (node : Node) : Prop := ∀ place target, node.at? place ≠ some (.link target)

theorem unlinked_iff_targets {node : Node} : node.Unlinked ↔ node.Targets fun _ => False := Iff.rfl

theorem unlinked_file (content : List UInt8) : (file content).Unlinked :=
  unlinked_iff_targets.mpr (targets_file content)

theorem unlinked_folder {entries : List (Text × Node)}
    (h : ∀ entry ∈ entries, entry.2.Unlinked) : (folder entries).Unlinked :=
  unlinked_iff_targets.mpr (targets_folder fun entry hmem => unlinked_iff_targets.mp (h entry hmem))

-- A node in folders that each hold nothing but the next one.
def tower : Location → Node → Node
  | [], node => node
  | name :: rest, node => .folder [(name, tower rest node)]

theorem tower_at? (place : Location) (node : Node) : (tower place node).at? place = some node := by
  induction place with
  | nil => rfl
  | cons name rest ih => simpa [tower, at?] using ih

-- The only file in a tower above one is that one.
theorem eq_of_tower_at? {place found : Location} {content other : List UInt8}
    (h : (tower place (.file content)).at? found = some (.file other)) : found = place := by
  induction place generalizing found with
  | nil => cases found with
    | nil => rfl
    | cons name rest => simp [tower, at?] at h
  | cons name rest ih =>
      cases found with
      | nil => simp [tower, at?] at h
      | cons next more =>
          simp only [tower, at?, List.lookup_cons, List.lookup_nil] at h
          cases hname : next == name with
          | false => simp [hname] at h
          | true =>
              simp only [hname, Option.bind_some] at h
              rw [beq_iff_eq.mp hname, ih h]

theorem tower_append (place more : Location) (node : Node) :
    tower (place ++ more) node = tower place (tower more node) := by
  induction place with
  | nil => rfl
  | cons name rest ih => simp only [List.cons_append, tower, ih]

theorem tower_targets {p : Text → Prop} {node : Node} (h : node.Targets p) (place : Location) :
    (tower place node).Targets p := by
  induction place with
  | nil => exact h
  | cons name rest ih => exact targets_folder (by simpa using ih)

theorem tower_unlinked {node : Node} (h : node.Unlinked) (place : Location) :
    (tower place node).Unlinked :=
  unlinked_iff_targets.mpr (tower_targets (unlinked_iff_targets.mp h) place)

end Node

namespace Disk

-- A link on the disk is a link in its root.
theorem target_of_link? {disk : Disk} {p : Text → Prop} (h : disk.root.Targets p)
    {place : Location} {target : Text} (hlink : disk.link? place = some target) : p target := by
  unfold link? at? at hlink
  cases hnode : disk.root.at? place with
  | none => simp [hnode] at hlink
  | some node =>
      cases node with
      | link other =>
          simp only [hnode, Option.map_some, Node.entry, Option.some.injEq] at hlink
          exact hlink ▸ h place other hnode
      | file content => simp [hnode, Node.entry] at hlink
      | folder entries => simp [hnode, Node.entry] at hlink

theorem unlinked_of_root {disk : Disk} (h : disk.root.Unlinked) : disk.Unlinked := by
  intro place
  rw [Option.eq_none_iff_forall_ne_some]
  intro target hlink
  exact target_of_link? (Node.unlinked_iff_targets.mp h) hlink

-- A disk with a folder's entries at a place and nothing else beside the way to it.
def tower (here place : Location) (entries : List (Text × Node)) : Disk :=
  match place with
  | [] => ⟨entries, here⟩
  | name :: rest => ⟨[(name, Node.tower rest (.folder entries))], here⟩

theorem tower_root (here place : Location) (entries : List (Text × Node)) :
    (tower here place entries).root = Node.tower place (.folder entries) := by
  cases place <;> rfl

@[simp] theorem tower_here (here place : Location) (entries : List (Text × Node)) :
    (tower here place entries).here = here := by
  cases place <;> rfl

-- What is below the place is what the entries say.
theorem tower_at? (here place more : Location) (entries : List (Text × Node)) :
    (tower here place entries).at? (place ++ more) =
      ((Node.folder entries).at? more).map Node.entry := by
  rw [at?, tower_root, Node.at?_append, Node.tower_at?]
  rfl

theorem eq_of_tower_at? {here place found : Location} {name : Text} {content other : List UInt8}
    (h : (tower here place [(name, .file content)]).at? found = some (.file other)) :
    found = place ++ [name] := by
  have hroot : (tower here place [(name, .file content)]).root =
      Node.tower (place ++ [name]) (.file content) := by
    rw [tower_root, Node.tower_append]
    rfl
  rw [at?, hroot] at h
  obtain ⟨node, hnode, hentry⟩ := Option.map_eq_some_iff.mp h
  cases node with
  | file content => exact Node.eq_of_tower_at? hnode
  | link target => cases hentry
  | folder entries => cases hentry

theorem tower_unlinked {entries : List (Text × Node)} (h : (Node.folder entries).Unlinked)
    (here place : Location) : (tower here place entries).Unlinked := by
  refine unlinked_of_root ?_
  rw [tower_root]
  exact Node.tower_unlinked h place

end Disk

end WorkspaceImports

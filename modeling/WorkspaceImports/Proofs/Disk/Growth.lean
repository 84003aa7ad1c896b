import WorkspaceImports.Disk.Edit
import WorkspaceImports.Proofs.Disk.Resolve
import WorkspaceImports.Proofs.Disk.Tower

namespace WorkspaceImports

theorem lookup_entry (name other : Text) (node : Node) (rest : List (Text × Node)) :
    ((name, node) :: rest).lookup other =
      if other = name then some node else rest.lookup other := by
  rw [List.lookup_cons]
  by_cases hname : other = name
  · simp [hname]
  · rw [beq_false_of_ne hname, if_neg hname]

theorem lookup_setEntry (name other : Text) (node : Node) (entries : List (Text × Node)) :
    (setEntry name node entries).lookup other =
      if other = name then some node else entries.lookup other := by
  induction entries with
  | nil => rw [setEntry, lookup_entry]
  | cons entry rest ih =>
      obtain ⟨first, old⟩ := entry
      rw [setEntry, lookup_entry first]
      by_cases hfirst : first = name
      · rw [if_pos hfirst, lookup_entry, hfirst]
        split <;> rfl
      · rw [if_neg hfirst, lookup_entry, ih]
        by_cases hother : other = first
        · rw [if_pos hother, if_neg (hother ▸ hfirst), if_pos hother]
        · rw [if_neg hother, if_neg hother]

namespace Node

theorem insert_empty (new : Node) (place : Location) :
    insert new place (.folder []) = tower place new := by
  induction place with
  | nil => rfl
  | cons name rest ih => simp only [insert, List.lookup_nil, Option.getD_none, ih, setEntry, tower]

variable {node new : Node} {folder rest found : Location} {name : Text}
  {entries : List (Text × Node)}

theorem at?_cons_eq_some {first : Text} {child : Node} (h : node.at? (first :: rest) = some child) :
    ∃ entries next, node = .folder entries ∧ entries.lookup first = some next ∧
      next.at? rest = some child := by
  cases node with
  | file content => simp [at?] at h
  | link target => simp [at?] at h
  | folder entries =>
      obtain ⟨next, hnext, hchild⟩ := Option.bind_eq_some_iff.mp h
      exact ⟨entries, next, rfl, hnext, hchild⟩

-- From a name on that a folder does not hold, a new node stands in folders of its own.
theorem insert_at?_below (hfolder : node.at? folder = some (.folder entries))
    (habsent : entries.lookup name = none) (more : Location) :
    (insert new (folder ++ name :: rest) node).at? (folder ++ name :: more) =
      (tower rest new).at? more := by
  induction folder generalizing node with
  | nil =>
      cases hfolder
      simp only [List.nil_append, insert, at?, lookup_setEntry, habsent, Option.getD_none,
        insert_empty, if_true, Option.bind_some]
  | cons first before ih =>
      obtain ⟨others, child, rfl, hchild, hbefore⟩ := at?_cons_eq_some hfolder
      simp only [List.cons_append, insert, at?, lookup_setEntry, hchild, Option.getD_some, if_true,
        Option.bind_some]
      exact ih hbefore

-- Everywhere else there is what was there before.
theorem insert_at?_other (hfolder : node.at? folder = some (.folder entries))
    (hother : ¬folder ++ [name] <+: found) :
    ((insert new (folder ++ name :: rest) node).at? found).map entry =
      (node.at? found).map entry := by
  induction folder generalizing node found with
  | nil =>
      cases hfolder
      cases found with
      | nil => rfl
      | cons other more =>
          have hname : other ≠ name := fun h => hother (by simp [h])
          simp only [List.nil_append, insert, at?, lookup_setEntry, hname, if_false]
  | cons first before ih =>
      obtain ⟨others, child, rfl, hchild, hbefore⟩ := at?_cons_eq_some hfolder
      cases found with
      | nil => rfl
      | cons other more =>
          simp only [List.cons_append, insert, at?, lookup_setEntry, hchild, Option.getD_some]
          by_cases hfirst : other = first
          · subst hfirst
            simp only [if_true, hchild, Option.bind_some]
            exact ih hbefore (by simpa using hother)
          · rw [if_neg hfirst]

end Node

namespace Disk

-- Another disk has all that a disk has, and what it has besides are no links.
structure Grown (disk other : Disk) : Prop where
  here : other.here = disk.here
  kept : ∀ place entry, disk.at? place = some entry → other.at? place = some entry
  links : ∀ place, other.link? place = disk.link? place

theorem insert_root (disk : Disk) (node : Node) {place : Location} (hplace : place ≠ []) :
    (disk.insert place node).root = Node.insert node place disk.root := by
  obtain ⟨name, rest, rfl⟩ := List.exists_cons_of_ne_nil hplace
  rfl

theorem insert_here (disk : Disk) (place : Location) (node : Node) :
    (disk.insert place node).here = disk.here := by
  unfold insert withRoot
  split <;> rfl

section Creation

variable {disk : Disk} {folder : Location} {name : Text} (hfolder : disk.isFolder folder = true)
  (habsent : disk.at? (folder ++ [name]) = none)

include hfolder habsent

theorem exists_entries_without : ∃ entries, disk.root.at? folder = some (.folder entries) ∧
    entries.lookup name = none := by
  unfold isFolder at? at hfolder
  cases hnode : disk.root.at? folder with
  | none => simp [hnode] at hfolder
  | some node =>
      cases node with
      | file content => simp [hnode, Node.entry] at hfolder
      | link target => simp [hnode, Node.entry] at hfolder
      | folder entries =>
          rw [at?, Node.at?_append, hnode] at habsent
          cases hname : entries.lookup name with
          | none => exact ⟨entries, rfl, hname⟩
          | some node => simp [Node.at?, hname] at habsent

theorem at?_below_absent (more : Location) : disk.at? (folder ++ name :: more) = none := by
  obtain ⟨entries, hentries, hnone⟩ := exists_entries_without hfolder habsent
  rw [at?, Node.at?_append, hentries]
  simp [Node.at?, hnone]

variable (rest : Location) (content : List UInt8)

theorem insert_at?_elsewhere {place : Location} (hplace : ¬folder ++ [name] <+: place) :
    (disk.insert (folder ++ name :: rest) (.file content)).at? place = disk.at? place := by
  obtain ⟨entries, hentries, -⟩ := exists_entries_without hfolder habsent
  rw [at?, at?, disk.insert_root _ (by simp)]
  exact Node.insert_at?_other hentries hplace

-- Below the new name there are only folders and the file.
theorem insert_link?_below (more : Location) :
    (disk.insert (folder ++ name :: rest) (.file content)).link? (folder ++ name :: more) =
      none := by
  obtain ⟨entries, hentries, hnone⟩ := exists_entries_without hfolder habsent
  rw [link?, at?, disk.insert_root _ (by simp), Node.insert_at?_below hentries hnone]
  cases hnode : (Node.tower rest (.file content)).at? more with
  | none => rfl
  | some node =>
      cases node with
      | file content => rfl
      | folder entries => rfl
      | link other =>
          exact absurd hnode (Node.tower_unlinked (Node.unlinked_file content) rest more other)

-- A new file grows the disk, also where folders on the way to it are missing.
theorem grown_insert : disk.Grown (disk.insert (folder ++ name :: rest) (.file content)) := by
  refine ⟨disk.insert_here _ _, fun place entry hentry => ?_, fun place => ?_⟩
  · have hplace : ¬folder ++ [name] <+: place := by
      rintro ⟨more, rfl⟩
      rw [List.append_assoc, List.singleton_append, at?_below_absent hfolder habsent] at hentry
      cases hentry
    rw [insert_at?_elsewhere hfolder habsent rest content hplace, hentry]
  · by_cases hplace : folder ++ [name] <+: place
    · obtain ⟨more, rfl⟩ := hplace
      rw [List.append_assoc, List.singleton_append, insert_link?_below hfolder habsent, link?,
        at?_below_absent hfolder habsent]
    · rw [link?, link?, insert_at?_elsewhere hfolder habsent rest content hplace]

end Creation

namespace Grown

variable {disk other : Disk} (h : disk.Grown other)

include h

theorem isFolder {place : Location} (hfolder : disk.isFolder place = true) :
    other.isFolder place = true := by
  unfold Disk.isFolder at hfolder ⊢
  rw [h.kept place .folder (by simpa using hfolder)]
  rfl

-- Where the system came through, it still does.
theorem go {follow next : Location → Text → List Text → Except Obstacle Location}
    (hfollow : ∀ place target rest found, follow place target rest = .ok found →
      next place target rest = .ok found)
    {place found : Location} {pieces : List Text}
    (hgo : Disk.go disk follow place pieces = .ok found) :
    Disk.go other next place pieces = .ok found := by
  induction pieces generalizing place with
  | nil => exact hgo
  | cons piece rest ih =>
      unfold Disk.go at hgo ⊢
      split at hgo
      · cases hgo
      rename_i hfolder
      rw [h.isFolder (by simpa using hfolder)]
      simp only [Bool.not_true, Bool.false_eq_true, if_false]
      split at hgo
      · rename_i hempty
        rw [if_pos hempty]
        exact ih hgo
      rename_i hempty
      rw [if_neg hempty]
      split at hgo
      · rename_i hdots
        rw [if_pos hdots]
        exact ih hgo
      rename_i hdots
      rw [if_neg hdots]
      split at hgo
      · cases hgo
      rename_i hshort
      rw [if_neg hshort]
      split at hgo
      · cases hgo
      · rename_i target hentry
        rw [h.kept _ _ hentry]
        exact hfollow _ _ _ _ hgo
      · rename_i entry hlink hentry
        rw [h.kept _ _ hentry]
        cases entry with
        | link target => exact absurd rfl (hlink target)
        | file content => exact ih hgo
        | folder => exact ih hgo

theorem travel {budget : Nat} {place found : Location} {pieces : List Text}
    (htravel : Disk.travel disk budget place pieces = .ok found) :
    Disk.travel other budget place pieces = .ok found := by
  induction budget generalizing place found pieces with
  | zero => exact h.go (fun _ _ _ _ hfollow => hfollow) htravel
  | succ budget ih => exact h.go (fun _ _ _ _ hfollow => ih hfollow) htravel

theorem locate {path : Path} {place : Location} (hlocate : disk.locate path = .ok place) :
    other.locate path = .ok place := by
  unfold Disk.locate at hlocate ⊢
  split at hlocate
  · cases hlocate
  · rename_i hshort
    rw [if_neg hshort, start, h.here]
    exact h.travel hlocate

theorem find {path : Path} {entry : Entry} (hfind : disk.find path = .ok entry) :
    other.find path = .ok entry := by
  unfold Disk.find at hfind ⊢
  cases hlocate : disk.locate path with
  | error obstacle => simp [hlocate] at hfind
  | ok place =>
      simp only [hlocate] at hfind
      simp only [h.locate hlocate]
      split at hfind
      · cases hfind
      · rename_i found hentry
        rw [h.kept _ _ hentry]
        exact hfind

theorem place_eq (way : Way) : way.place other = way.place disk := by
  simp only [Way.place, h.here]

-- A resolution asks the disk for links only, so it goes the same way.
theorem advance_eq (enter : Met → Way → Text → Outcome) :
    advance other enter = advance disk enter := by
  have hlink : ∀ way : Way, way.link? other = way.link? disk := by
    intro way
    simp only [Way.link?, h.place_eq, h.links]
  funext met way pieces
  induction pieces generalizing met way with
  | nil => rfl
  | cons piece rest ih => simp only [advance, hlink, ih]

theorem unwind_eq (depth : Nat) : unwind other depth = unwind disk depth := by
  induction depth with
  | zero => exact h.advance_eq _
  | succ depth ih =>
      unfold unwind
      rw [ih]
      exact h.advance_eq _

theorem resolution_eq (path : Path) : other.resolution path = disk.resolution path := by
  rw [resolution, h.unwind_eq]
  rfl

-- What a path is resolved to stays the same if something is there. Otherwise the way to it may
-- have become a circle.
theorem resolve {path resolved : Path} {entry : Entry}
    (hresolve : disk.resolve path = .ok resolved) (hfind : disk.find resolved = .ok entry) :
    other.resolve path = .ok resolved := by
  obtain ⟨hend, hnull, -⟩ := resolve_eq_ok_iff.mp hresolve
  refine resolve_eq_ok_iff.mpr ⟨?_, hnull, by simp [h.find hfind]⟩
  have habsolute : ∀ circle, other.absolute circle = disk.absolute circle := by
    intro circle
    simp only [absolute, h.here]
  simpa only [h.resolution_eq, h.place_eq, habsolute] using hend

theorem isFile? {path : Path} (hfile : disk.isFile? path = .ok true) :
    other.isFile? path = .ok true := by
  obtain ⟨hnull, content, hfind⟩ := isFile?_eq_true_iff_find.mp hfile
  exact isFile?_eq_true_iff_find.mpr ⟨hnull, content, h.find hfind⟩

end Grown

end Disk

end WorkspaceImports

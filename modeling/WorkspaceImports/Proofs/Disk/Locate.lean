import WorkspaceImports.Proofs.Disk.Way
import WorkspaceImports.Proofs.Path

namespace WorkspaceImports

instance decidableEqExcept {ε α : Type} [DecidableEq ε] [DecidableEq α] :
    DecidableEq (Except ε α)
  | .ok a, .ok b => decidable_of_iff (a = b) (by simp)
  | .error a, .error b => decidable_of_iff (a = b) (by simp)
  | .ok _, .error _ => isFalse (by simp)
  | .error _, .ok _ => isFalse (by simp)

namespace Disk

variable {disk : Disk}

-- No link stands at a place or at a folder on the way to it.
def Linkless (disk : Disk) (place : Location) : Prop :=
  ∀ more, more ≠ [] → more <+: place → disk.link? more = none

theorem Way.Straight.linkless {names : List Text} (h : (Way.mk .root names).Straight disk)
    (hsize : Utf8.size (Path.mk .root names).text < pathLimit) : disk.Linkless names := by
  intro more hne hmore
  have hlink := h more hne hmore
  have hshort : Utf8.size (Path.mk .root more).text < pathLimit :=
    Nat.lt_of_le_of_lt (Path.size_le hmore (Or.inl (by simp))) hsize
  cases htarget : disk.link? more with
  | none => rfl
  | some target => simp [Way.link?, Way.place, Way.path, htarget, hshort] at hlink

theorem Linkless.straight {names : List Text} (h : disk.Linkless names) :
    (Way.mk .root names).Straight disk := by
  intro more hne hmore
  simp [Way.link?, Way.place, h more hne hmore]

-- Where no link stands, the system goes along the names as they are.
theorem go_eq_append (follow : Location → Text → List Text → Except Obstacle Location)
    {place found : Location} {names : List Text} (hnames : ∀ name ∈ names, IsName name)
    (hlinks : ∀ more, more ≠ [] → more <+: names → disk.link? (place ++ more) = none)
    (h : go disk follow place names = .ok found) : found = place ++ names := by
  induction names generalizing place with
  | nil =>
      cases h
      simp
  | cons name rest ih =>
      have hname := hnames name List.mem_cons_self
      have hlink := hlinks [name] (by simp) (by simp)
      have hstep : go disk follow (place ++ [name]) rest = .ok found := by
        simp only [go, hname.ne_nil, hname.ne_dot, hname.ne_dots, or_self, if_false] at h
        split at h
        · cases h
        split at h
        · cases h
        split at h
        · cases h
        · rename_i target hentry
          simp [link?, hentry] at hlink
        · exact h
      have hfound := ih (fun other hmem => hnames other (List.mem_cons_of_mem _ hmem)) (by
        intro more hne hmore
        have hlink := hlinks (name :: more) (by simp) (List.cons_prefix_cons.mpr ⟨rfl, hmore⟩)
        simpa using hlink) hstep
      simpa using hfound

theorem locate_eq_names {path : Path} {place : Location} (hanchor : path.anchor ≠ .here)
    (hnames : ∀ name ∈ path.names, IsName name) (hlinks : disk.Linkless path.names)
    (h : disk.locate path = .ok place) : place = path.names := by
  unfold locate at h
  split at h
  · cases h
  · rw [start, if_neg hanchor] at h
    exact go_eq_append _ hnames (by simpa [Linkless] using hlinks) h

theorem size_lt_of_locate {path : Path} {place : Location} (h : disk.locate path = .ok place) :
    Utf8.size path.text < pathLimit := by
  unfold locate at h
  split at h
  · cases h
  · omega

-- A file is there exactly if the system reaches one.
theorem isFile?_eq_true_iff (path : Path) :
    disk.isFile? path = .ok true ↔ path.hasNull = false ∧
      ∃ place content, disk.locate path = .ok place ∧ disk.at? place = some (.file content) := by
  unfold isFile? test find
  by_cases hnull : path.hasNull = true
  · simp [hnull]
  · simp only [hnull, Bool.false_eq_true, if_false, true_and]
    cases hlocate : disk.locate path with
    | error obstacle => cases hrefusal : obstacle.refusal <;> simp [hrefusal]
    | ok place =>
        cases hentry : disk.at? place with
        | none => simp [hentry]
        | some entry => cases entry <;> simp [hentry]

theorem isFile?_eq_true_iff_read {path : Path} :
    disk.isFile? path = .ok true ↔ ∃ content, disk.read path = .ok content := by
  unfold isFile? test read
  cases path.hasNull with
  | true => simp
  | false =>
      cases disk.find path with
      | error refusal => cases refusal <;> simp
      | ok entry => cases entry <;> simp

-- Whether a file is there has an answer unless the path or a name on its way is too long.
theorem isFile?_eq_ok_iff {path : Path} : (∃ found, disk.isFile? path = .ok found) ↔
    path.hasNull = true ∨ disk.find path ≠ .error .nameTooLong := by
  unfold isFile? test
  cases path.hasNull with
  | true => simp
  | false =>
      cases disk.find path with
      | error refusal => cases refusal <;> simp
      | ok entry => simp

end Disk

end WorkspaceImports

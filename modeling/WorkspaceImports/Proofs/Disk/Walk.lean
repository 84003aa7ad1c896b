import WorkspaceImports.Proofs.Disk.Settled

namespace WorkspaceImports

namespace Disk

-- A disk on which no link stands.
def Unlinked (disk : Disk) : Prop := ∀ place, disk.link? place = none

-- The place that one piece of a path leads to where no link stands.
def next (disk : Disk) (place : Location) (piece : Text) : Except Refusal Location :=
  if !disk.isFolder place then .error .notAFolder
  else if piece = [] ∨ piece = ['.'] then .ok place
  else if piece = ['.', '.'] then .ok place.dropLast
  else if nameLimit < Utf8.size piece then .error .nameTooLong
  else if (disk.at? (place ++ [piece])).isSome then .ok (place ++ [piece])
  else .error .notFound

def walk (disk : Disk) : Location → List Text → Except Refusal Location
  | place, [] => .ok place
  | place, piece :: rest => (disk.next place piece).bind (walk disk · rest)

def see (disk : Disk) (place : Location) : Except Refusal Entry :=
  match disk.at? place with
  | none => .error .notFound
  | some entry => .ok entry

-- The path to a place is one that the system takes.
def Fits (place : Location) : Prop :=
  (∀ name ∈ place, Utf8.size name ≤ nameLimit) ∧ Utf8.size (Path.text ⟨.root, place⟩) < pathLimit

instance (place : Location) : Decidable (Fits place) := inferInstanceAs (Decidable (_ ∧ _))

variable {disk : Disk} {place found : Location} {names pieces : List Text}

-- Without links the system goes along a path one piece after another.
theorem go_eq_walk (hlinks : disk.Unlinked)
    (follow : Location → Text → List Text → Except Obstacle Location) (place : Location)
    (pieces : List Text) :
    (go disk follow place pieces).mapError Obstacle.refusal = disk.walk place pieces := by
  induction pieces generalizing place with
  | nil => rfl
  | cons piece rest ih =>
      unfold go walk next
      split
      · rfl
      split
      · exact ih place
      split
      · exact ih place.dropLast
      split
      · rfl
      cases hentry : disk.at? (place ++ [piece]) with
      | none => cases rest <;> rfl
      | some entry =>
          cases entry with
          | link target =>
              have hlink := hlinks (place ++ [piece])
              simp [link?, hentry] at hlink
          | file content => exact ih (place ++ [piece])
          | folder => exact ih (place ++ [piece])

theorem find_eq_walk (hlinks : disk.Unlinked) (path : Path) :
    disk.find path =
      if pathLimit ≤ Utf8.size path.text then .error .nameTooLong
      else (disk.walk (disk.start path) path.names).bind disk.see := by
  unfold find locate
  by_cases hlong : pathLimit ≤ Utf8.size path.text
  · simp only [hlong, if_true]
    rfl
  · simp only [hlong, if_false, travel, linkLimit]
    rw [← go_eq_walk hlinks _ (disk.start path) path.names]
    cases go disk _ (disk.start path) path.names with
    | error obstacle => rfl
    | ok place => rfl

theorem walk_append (place : Location) (pieces more : List Text) :
    disk.walk place (pieces ++ more) = (disk.walk place pieces).bind (disk.walk · more) := by
  induction pieces generalizing place with
  | nil => rfl
  | cons piece rest ih =>
      simp only [List.cons_append, walk]
      cases disk.next place piece with
      | error refusal => rfl
      | ok reached => exact ih reached

-- A piece that counts leads into the folder, or with two dots out of it.
theorem next_eq_ok {piece : Text} (h : disk.next place piece = .ok found) :
    found = Path.collapse place (counted [piece]) := by
  unfold next at h
  split at h
  · cases h
  split at h
  · rename_i hempty
    cases h
    rcases hempty with rfl | rfl <;> rfl
  rename_i hempty
  have hcounted : counted [piece] = [piece] :=
    List.filter_cons_of_pos (by simpa [not_or] using hempty)
  rw [hcounted, Path.collapse]
  split at h
  · rename_i hdots
    cases h
    rw [if_pos hdots, Path.collapse]
  rename_i hdots
  rw [if_neg hdots, Path.collapse]
  split at h
  · cases h
  split at h
  · cases h
    rfl
  · cases h

theorem walk_cons_eq_ok_iff {piece : Text} : disk.walk place (piece :: pieces) = .ok found ↔
    ∃ reached, disk.next place piece = .ok reached ∧ disk.walk reached pieces = .ok found := by
  rw [walk]
  cases disk.next place piece with
  | error refusal => simp [Except.bind]
  | ok reached => simp [Except.bind]

-- So a walk ends where the spelling says.
theorem walk_eq_ok (h : disk.walk place pieces = .ok found) :
    found = Path.collapse place (counted pieces) := by
  induction pieces generalizing place with
  | nil =>
      cases h
      rfl
  | cons piece rest ih =>
      obtain ⟨reached, hnext, hrest⟩ := walk_cons_eq_ok_iff.mp h
      have hcounted : counted (piece :: rest) = counted [piece] ++ counted rest := by
        simp [counted, ← List.filter_append]
      rw [ih hrest, next_eq_ok hnext, hcounted, Path.collapse_append]

theorem isFolder_of_isSome {place more : Location} (hmore : more ≠ [])
    (h : (disk.at? (place ++ more)).isSome) : disk.isFolder place = true := by
  unfold isFolder
  unfold at? at h ⊢
  rw [Node.at?_append] at h
  cases hnode : disk.root.at? place with
  | none => simp [hnode] at h
  | some node =>
      obtain ⟨name, rest, rfl⟩ := List.exists_cons_of_ne_nil hmore
      cases node with
      | folder entries => rfl
      | file content => simp [hnode, Node.at?] at h
      | link target => simp [hnode, Node.at?] at h

theorem isSome_of_isFolder (h : disk.isFolder place = true) : (disk.at? place).isSome := by
  unfold isFolder at h
  cases hentry : disk.at? place with
  | none => simp [hentry] at h
  | some entry => rfl

theorem next_name {name : Text} (hname : IsName name) (hfolder : disk.isFolder place = true) :
    disk.next place name =
      if nameLimit < Utf8.size name then .error .nameTooLong
      else if (disk.at? (place ++ [name])).isSome then .ok (place ++ [name])
      else .error .notFound := by
  simp only [next, hfolder, hname.ne_nil, hname.ne_dot, hname.ne_dots, or_self, if_false,
    Bool.not_true, Bool.false_eq_true]

theorem next_name_eq_ok {name : Text} (hname : IsName name) (h : disk.next place name = .ok found) :
    found = place ++ [name] ∧ (disk.at? (place ++ [name])).isSome := by
  cases hfolder : disk.isFolder place with
  | false => simp [next, hfolder] at h
  | true =>
      rw [next_name hname hfolder] at h
      split at h
      · cases h
      split at h
      · rename_i hthere
        cases h
        exact ⟨rfl, hthere⟩
      · cases h

-- Where something stands at the end of several names, only their lengths can keep the system from
-- going there.
theorem walk_names (disk : Disk) (place : Location) (hnames : ∀ name ∈ names, IsName name)
    (h : names ≠ [] → (disk.at? (place ++ names)).isSome) :
    disk.walk place names =
      if ∀ name ∈ names, Utf8.size name ≤ nameLimit then .ok (place ++ names)
      else .error .nameTooLong := by
  induction names generalizing place with
  | nil => simp [walk]
  | cons name rest ih =>
      have hsome := h (by simp)
      have hsplit : place ++ name :: rest = place ++ [name] ++ rest := by simp
      have hfolder : disk.isFolder place = true := isFolder_of_isSome (by simp) hsome
      have hthere : (disk.at? (place ++ [name])).isSome := by
        by_cases hrest : rest = []
        · rwa [hrest] at hsome
        · rw [hsplit] at hsome
          exact isSome_of_isFolder (isFolder_of_isSome hrest hsome)
      have hwalk := ih (place ++ [name])
        (fun other hmem => hnames other (List.mem_cons_of_mem _ hmem))
        (fun _ => by rwa [← hsplit])
      rw [walk, next_name (hnames name List.mem_cons_self) hfolder, hthere]
      by_cases hlong : nameLimit < Utf8.size name
      · have hnot : ¬∀ other ∈ name :: rest, Utf8.size other ≤ nameLimit := by
          intro hall
          have hshort := hall name List.mem_cons_self
          omega
        rw [if_pos hlong, if_neg hnot]
        rfl
      · have hshort : Utf8.size name ≤ nameLimit := by omega
        simp only [hlong, if_false, if_true, Except.bind, hwalk, List.forall_mem_cons, hshort,
          true_and, hsplit]

theorem walk_names_eq_ok_iff (hnames : ∀ name ∈ names, IsName name) :
    disk.walk place names = .ok found ↔
      found = place ++ names ∧ (names ≠ [] → (disk.at? (place ++ names)).isSome) ∧
        ∀ name ∈ names, Utf8.size name ≤ nameLimit := by
  constructor
  · intro h
    suffices hsome : names ≠ [] → (disk.at? (place ++ names)).isSome by
      rw [walk_names disk place hnames hsome] at h
      split at h
      · rename_i hall
        cases h
        exact ⟨rfl, hsome, hall⟩
      · cases h
    induction names generalizing place with
    | nil => exact fun hne => absurd rfl hne
    | cons name rest ih =>
        intro _
        obtain ⟨reached, hnext, hwalk⟩ := walk_cons_eq_ok_iff.mp h
        obtain ⟨rfl, hthere⟩ := next_name_eq_ok (hnames name List.mem_cons_self) hnext
        by_cases hrest : rest = []
        · rwa [hrest]
        · have hend := ih (fun other hmem => hnames other (List.mem_cons_of_mem _ hmem))
            hwalk hrest
          simpa using hend
  · rintro ⟨rfl, hsome, hall⟩
    rw [walk_names disk place hnames hsome, if_pos hall]

-- What the system finds under a path of names is what stands at the place, if it takes the path.
theorem find_names_eq_ok_iff (hlinks : disk.Unlinked) (hnames : ∀ name ∈ names, IsName name)
    {entry : Entry} :
    disk.find ⟨.root, names⟩ = .ok entry ↔ Fits names ∧ disk.at? names = some entry := by
  have hstart : disk.start ⟨.root, names⟩ = [] := rfl
  rw [find_eq_walk hlinks, hstart]
  constructor
  · intro h
    split at h
    · cases h
    rename_i hshort
    cases hwalk : disk.walk [] names with
    | error refusal => simp [hwalk, Except.bind] at h
    | ok found =>
        obtain ⟨rfl, -, hall⟩ := (walk_names_eq_ok_iff hnames).mp hwalk
        simp only [hwalk, Except.bind, see] at h
        split at h
        · cases h
        · rename_i hentry
          cases h
          exact ⟨⟨hall, by omega⟩, hentry⟩
  · rintro ⟨⟨hall, hshort⟩, hentry⟩
    have hwalk : disk.walk [] names = .ok ([] ++ names) :=
      (walk_names_eq_ok_iff hnames).mpr ⟨rfl, fun _ => by simp [hentry], hall⟩
    rw [if_neg (by omega), hwalk]
    simp [Except.bind, see, hentry]

theorem find_of_at? (hlinks : disk.Unlinked) (hnames : ∀ name ∈ names, IsName name)
    {entry : Entry} (h : disk.at? names = some entry) :
    disk.find ⟨.root, names⟩ = if Fits names then .ok entry else .error .nameTooLong := by
  by_cases hfits : Fits names
  · rw [if_pos hfits]
    exact (find_names_eq_ok_iff hlinks hnames).mpr ⟨hfits, h⟩
  · have hstart : disk.start ⟨.root, names⟩ = [] := rfl
    have hwalk := walk_names disk [] hnames (fun _ => by simp [h])
    rw [if_neg hfits, find_eq_walk hlinks, hstart]
    by_cases hlong : pathLimit ≤ Utf8.size (Path.mk .root names).text
    · rw [if_pos hlong]
    · have hnot : ¬∀ name ∈ names, Utf8.size name ≤ nameLimit :=
        fun hall => hfits ⟨hall, by omega⟩
      rw [if_neg hlong, hwalk, if_neg hnot]
      rfl

-- What is found under any path stands where its spelling says.
theorem at?_of_find (hlinks : disk.Unlinked) {path : Path} {entry : Entry}
    (h : disk.find path = .ok entry) :
    disk.at? (Path.collapse (disk.start path) (counted path.names)) = some entry := by
  rw [find_eq_walk hlinks] at h
  split at h
  · cases h
  cases hwalk : disk.walk (disk.start path) path.names with
  | error refusal => simp [hwalk, Except.bind] at h
  | ok found =>
      simp only [hwalk, Except.bind, see] at h
      rw [← walk_eq_ok hwalk]
      cases hentry : disk.at? found with
      | none => simp [hentry] at h
      | some other => simpa [hentry] using h

theorem isFile?_eq_true_iff_find {path : Path} : disk.isFile? path = .ok true ↔
    path.hasNull = false ∧ ∃ content, disk.find path = .ok (.file content) := by
  unfold isFile? test
  cases path.hasNull with
  | true => simp
  | false =>
      cases disk.find path with
      | error refusal => cases refusal <;> simp
      | ok entry => cases entry <;> simp

theorem isFile?_names_iff (hlinks : disk.Unlinked) (hnames : ∀ name ∈ names, IsName name) :
    disk.isFile? ⟨.root, names⟩ = .ok true ↔
      Fits names ∧ ∃ content, disk.at? names = some (.file content) := by
  have hnull : (Path.mk .root names).hasNull = false :=
    (Path.hasNull_eq_false_iff _).mpr fun name hmem => (hnames name hmem).noNull
  simp only [isFile?_eq_true_iff_find, hnull, true_and, find_names_eq_ok_iff hlinks hnames,
    exists_and_left]

theorem walk_ne_linkLoop (place : Location) (pieces : List Text) :
    disk.walk place pieces ≠ .error .linkLoop := by
  induction pieces generalizing place with
  | nil => simp [walk]
  | cons piece rest ih =>
      rw [walk]
      cases hnext : disk.next place piece with
      | ok reached => exact ih reached
      | error refusal =>
          rintro h
          cases h
          unfold next at hnext
          grind

theorem find_ne_linkLoop (hlinks : disk.Unlinked) (path : Path) :
    disk.find path ≠ .error .linkLoop := by
  rw [find_eq_walk hlinks]
  split
  · simp
  · cases hwalk : disk.walk (disk.start path) path.names with
    | error refusal =>
        rintro h
        cases h
        exact walk_ne_linkLoop _ _ hwalk
    | ok place =>
        simp only [Except.bind, see]
        split <;> simp

-- Names are gone along in the same way on two disks that have the same on the way.
theorem walk_congr {other : Disk} (hnames : ∀ name ∈ names, IsName name)
    (hfolder : disk.isFolder place = other.isFolder place)
    (hagree : ∀ more, more ≠ [] → more <+: names →
      disk.at? (place ++ more) = other.at? (place ++ more)) :
    disk.walk place names = other.walk place names := by
  induction names generalizing place with
  | nil => rfl
  | cons name rest ih =>
      have hthere := hagree [name] (by simp) (by simp)
      have hnext : disk.next place name = other.next place name := by
        simp only [next, hfolder, hthere]
      simp only [walk, hnext]
      cases hreached : other.next place name with
      | error refusal => rfl
      | ok reached =>
          obtain ⟨rfl, -⟩ := next_name_eq_ok (hnames name List.mem_cons_self) hreached
          refine ih (fun name hmem => hnames name (List.mem_cons_of_mem _ hmem)) ?_ ?_
          · simp only [isFolder, hthere]
          · intro more _ hmore
            simpa using hagree (name :: more) (by simp) (List.cons_prefix_cons.mpr ⟨rfl, hmore⟩)

-- What is found under a path is the same on two disks if its beginning leads to one folder of both
-- and they have the same on the way from there.
theorem find_congr {other : Disk} (hlinks : disk.Unlinked) (hothers : other.Unlinked) {path : Path}
    {before : List Text} (hpath : path.names = before ++ names) (hne : names ≠ [])
    (hnames : ∀ name ∈ names, IsName name)
    (hbefore : disk.walk (disk.start path) before = other.walk (other.start path) before)
    (hplace : ∀ found, disk.walk (disk.start path) before = .ok found → found = place)
    (hfolder : disk.isFolder place = other.isFolder place)
    (hagree : ∀ more, more ≠ [] → more <+: names →
      disk.at? (place ++ more) = other.at? (place ++ more)) :
    disk.find path = other.find path := by
  rw [find_eq_walk hlinks, find_eq_walk hothers, hpath, walk_append, walk_append, ← hbefore]
  cases hstart : disk.walk (disk.start path) before with
  | error refusal => rfl
  | ok found =>
      obtain rfl := hplace found hstart
      simp only [Except.bind, walk_congr hnames hfolder hagree]
      cases hwalk : other.walk found names with
      | error refusal => rfl
      | ok reached =>
          obtain ⟨rfl, -⟩ := (walk_names_eq_ok_iff hnames).mp hwalk
          simp only [see, hagree names hne List.prefix_rfl]

-- Without links a path is resolved by its spelling, seen from where it starts.
theorem resolve_unlinked (hlinks : disk.Unlinked) (path : Path)
    (hhere : path.anchor = .here → ∀ name ∈ disk.here, IsName name) :
    disk.resolve path =
      if path.hasNull then .error .nullCharacter
      else .ok ⟨.root, Path.collapse (disk.start path) (counted path.names)⟩ := by
  have hplace : (Way.mk (if path.anchor = .here then .above 0 else .root) []).place disk =
      disk.start path := by
    by_cases hanchor : path.anchor = .here <;> simp [Way.place, start, hanchor]
  rw [resolve, resolution_along hlinks]
  cases hnull : path.hasNull with
  | true => rfl
  | false =>
      simp only [Bool.false_eq_true, if_false, Way.place_along, hplace]
      refine settle_eq_ok_iff.mpr ⟨rfl, ?_, find_ne_linkLoop hlinks _⟩
      refine (Path.hasNull_eq_false_iff _).mpr fun name hmem => ?_
      rcases Path.mem_collapse hmem with hstart | ⟨hcounted, -⟩
      · by_cases hanchor : path.anchor = .here
        · rw [start, if_pos hanchor] at hstart
          exact (hhere hanchor name hstart).noNull
        · simp [start, hanchor] at hstart
      · exact (Path.hasNull_eq_false_iff path).mp hnull name (List.mem_filter.mp hcounted).1

end Disk

end WorkspaceImports

import WorkspaceImports.Proofs.Disk.Resolve

namespace WorkspaceImports.Disk

variable {disk : Disk}

-- Along names on which no link stands nothing is followed.
theorem advance_straight (enter : Met → Way → Text → Outcome) (met : Met) {way : Way}
    {names : List Text} (hnames : ∀ name ∈ names, IsName name)
    (hstraight : ({ way with names := way.names ++ names } : Way).Straight disk) :
    advance disk enter met way names = .arrived met { way with names := way.names ++ names } := by
  induction names generalizing way with
  | nil => simp [advance]
  | cons name rest ih =>
      have hname := hnames name List.mem_cons_self
      have hnull : name.contains '\x00' = false := by simpa using hname.noNull
      have hlink : (way.child name).link? disk = none :=
        hstraight (way.names ++ [name]) (by simp) (by simp)
      have hrest := @ih (way.child name)
        (fun other hmem => hnames other (List.mem_cons_of_mem _ hmem))
        (by simpa [Way.child] using hstraight)
      simp only [advance, hname.ne_nil, hname.ne_dot, hname.ne_dots, or_self, if_false, hnull,
        Bool.false_eq_true, hlink, hrest]
      simp [Way.child]

theorem unwind_straight (depth : Nat) (met : Met) {way : Way} {names : List Text}
    (hnames : ∀ name ∈ names, IsName name)
    (hstraight : ({ way with names := way.names ++ names } : Way).Straight disk) :
    unwind disk depth met way names = .arrived met { way with names := way.names ++ names } := by
  cases depth <;> exact advance_straight _ met hnames hstraight

-- So a path from the root that is straight already is resolved to itself.
theorem resolution_straight_path {path : Path} (hanchor : path.anchor ≠ .here)
    (hnames : ∀ name ∈ path.names, IsName name)
    (hstraight : (Way.mk .root path.names).Straight disk) :
    disk.resolution path = .arrived [] ⟨.root, path.names⟩ := by
  rw [resolution, if_neg hanchor]
  exact unwind_straight depthLimit [] hnames hstraight

theorem resolve_eq_self {path : Path} (hanchor : path.anchor = .root)
    (hnames : ∀ name ∈ path.names, IsName name)
    (hstraight : (Way.mk .root path.names).Straight disk)
    (hfind : disk.find path ≠ .error .linkLoop) : disk.resolve path = .ok path := by
  have hresolution := resolution_straight_path (by simp [hanchor]) hnames hstraight
  have hpath : (⟨.root, path.names⟩ : Path) = path := by
    rw [← hanchor]
  refine resolve_eq_ok_iff.mpr ⟨Or.inl ⟨[], _, hresolution, hpath.symm⟩, ?_, hfind⟩
  exact (Path.hasNull_eq_false_iff path).mpr fun name hmem => (hnames name hmem).noNull

-- The pieces of a path that count: empty ones and single dots stay where they are.
def counted (pieces : List Text) : List Text :=
  pieces.filter fun piece => piece ≠ [] ∧ piece ≠ ['.']

theorem counted_append (pieces more : List Text) :
    counted (pieces ++ more) = counted pieces ++ counted more := List.filter_append ..

theorem counted_eq_self {pieces : List Text} (h : ∀ piece ∈ pieces, piece ≠ [] ∧ piece ≠ ['.']) :
    counted pieces = pieces :=
  List.filter_eq_self.mpr fun piece hmem => by simpa using h piece hmem

-- A way gone on along names, where two dots take the last one back.
def Way.along (way : Way) (names : List Text) : Way :=
  names.foldl (fun way name => if name = ['.', '.'] then way.parent else way.child name) way

theorem Way.along_cons (way : Way) (name : Text) (rest : List Text) :
    way.along (name :: rest) =
      (if name = ['.', '.'] then way.parent else way.child name).along rest := rfl

theorem Way.along_root (before names : List Text) :
    (Way.mk .root before).along names = ⟨.root, Path.collapse before names⟩ := by
  induction names generalizing before with
  | nil => rfl
  | cons name rest ih =>
      rw [along_cons, Path.collapse]
      split
      · cases before <;> exact ih _
      · exact ih _

theorem Way.place_parent (way : Way) (disk : Disk) :
    way.parent.place disk = (way.place disk).dropLast := by
  obtain ⟨origin, names⟩ := way
  cases origin with
  | root => cases names <;> rfl
  | above count =>
      cases names with
      | nil =>
          simp only [parent, place, List.append_nil, List.dropLast_eq_take, List.length_take,
            List.take_take]
          congr 1
          omega
      | cons name rest => simp [parent, place, List.dropLast_append_of_ne_nil]

theorem Way.place_along (way : Way) (disk : Disk) (names : List Text) :
    (way.along names).place disk = Path.collapse (way.place disk) names := by
  induction names generalizing way with
  | nil => rfl
  | cons name rest ih =>
      rw [along_cons, ih, Path.collapse]
      split
      · rw [place_parent]
      · congr 1
        cases horigin : way.origin <;> simp [child, place, horigin]

-- Where there are no links at all, a resolution goes by the spelling.
theorem advance_along (hlinks : ∀ place, disk.link? place = none)
    (enter : Met → Way → Text → Outcome) (met : Met) (way : Way) (pieces : List Text) :
    advance disk enter met way pieces =
      if pieces.any (·.contains '\x00') then .failed .nullCharacter
      else .arrived met (way.along (counted pieces)) := by
  induction pieces generalizing way with
  | nil => rfl
  | cons piece rest ih =>
      by_cases hempty : piece = [] ∨ piece = ['.']
      · have hnull : piece.contains '\x00' = false := by
          rcases hempty with rfl | rfl <;> decide
        have hcounted : counted (piece :: rest) = counted rest := by
          rcases hempty with rfl | rfl <;> simp [counted]
        rw [advance, if_pos hempty, ih, hcounted, List.any_cons, hnull, Bool.false_or]
      · have hcounted : counted (piece :: rest) = piece :: counted rest := by
          exact List.filter_cons_of_pos (by simpa [not_or] using hempty)
        rw [hcounted, Way.along_cons]
        by_cases hdots : piece = ['.', '.']
        · have hnull : piece.contains '\x00' = false := by
            subst hdots
            decide
          rw [advance, if_neg hempty, if_pos hdots, ih, List.any_cons, hnull, Bool.false_or,
            if_pos hdots]
        · cases hnull : piece.contains '\x00' with
          | true => simp only [advance, hempty, hdots, if_false, hnull, List.any_cons, if_true,
              Bool.true_or]
          | false =>
              have hlink : (way.child piece).link? disk = none := by
                simp [Way.link?, hlinks]
              simp only [advance, hempty, hdots, if_false, hnull, hlink, List.any_cons,
                Bool.false_eq_true, Bool.false_or]
              exact ih (way.child piece)

theorem resolution_along (hlinks : ∀ place, disk.link? place = none) (path : Path) :
    disk.resolution path =
      if path.hasNull then .failed .nullCharacter
      else .arrived []
        ((Way.mk (if path.anchor = .here then .above 0 else .root) []).along
          (counted path.names)) :=
  advance_along hlinks _ [] _ path.names

theorem resolution_lexical (hlinks : ∀ place, disk.link? place = none) {path : Path}
    (hanchor : path.anchor ≠ .here) :
    disk.resolution path =
      if path.hasNull then .failed .nullCharacter
      else .arrived [] ⟨.root, Path.collapse [] (counted path.names)⟩ := by
  rw [resolution_along hlinks, if_neg hanchor, Way.along_root]

end WorkspaceImports.Disk

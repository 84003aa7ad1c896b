import WorkspaceImports.Proofs.Disk.Tower

namespace WorkspaceImports

namespace Disk

variable {disk : Disk}

-- The system makes no link whose target holds a null character.
def NullFree (disk : Disk) : Prop :=
  ∀ place target, disk.link? place = some target → '\x00' ∉ target

theorem nullFree_of_root (h : disk.root.Targets ('\x00' ∉ ·)) : disk.NullFree :=
  fun _ _ hlink => target_of_link? h hlink

section Failing

-- A stretch of a resolution fails only where the links it enters do.
theorem advance_failed (hdisk : disk.NullFree) {enter : Met → Way → Text → Outcome}
    (henter : ∀ met way target failure, '\x00' ∉ target →
      enter met way target = .failed failure → failure = .tooDeep)
    {met : Met} {way : Way} {pieces : List Text} (hpieces : ∀ piece ∈ pieces, '\x00' ∉ piece)
    {failure : Failure} (h : advance disk enter met way pieces = .failed failure) :
    failure = .tooDeep := by
  induction pieces generalizing met way with
  | nil => cases h
  | cons piece rest ih =>
      have hrest : ∀ piece ∈ rest, '\x00' ∉ piece :=
        fun other hmem => hpieces other (List.mem_cons_of_mem _ hmem)
      have hpiece : piece.contains '\x00' = false := by simpa using hpieces piece List.mem_cons_self
      simp only [advance, hpiece] at h
      split at h
      · exact ih hrest h
      split at h
      · exact ih hrest h
      simp only [Bool.false_eq_true, if_false] at h
      split at h
      · exact ih hrest h
      rename_i target hlink
      obtain ⟨htarget, -⟩ := Option.filter_eq_some_iff.mp hlink
      split at h
      · exact ih hrest h
      · cases h
      split at h
      · exact ih hrest h
      · cases h
      · rename_i failed hentered
        cases h
        exact henter _ _ _ _ (hdisk _ _ htarget) hentered

theorem unwind_failed (hdisk : disk.NullFree) (depth : Nat) {met : Met} {way : Way}
    {pieces : List Text} (hpieces : ∀ piece ∈ pieces, '\x00' ∉ piece) {failure : Failure}
    (h : unwind disk depth met way pieces = .failed failure) : failure = .tooDeep := by
  induction depth generalizing met way pieces failure with
  | zero => exact advance_failed hdisk (fun _ _ _ _ _ hfailed => by cases hfailed; rfl) hpieces h
  | succ depth ih =>
      refine advance_failed hdisk ?_ hpieces h
      intro met way target failure htarget hfailed
      refine ih (fun piece hmem => ?_) hfailed
      exact fun hnull => htarget (Text.subset_of_mem_splitOn hmem hnull)

-- So without null characters a resolution fails only at links that lead too deeply into each other.
theorem resolution_failed (hdisk : disk.NullFree) {text : Text} (htext : '\x00' ∉ text)
    {failure : Failure} (h : disk.resolution (Path.ofText text) = .failed failure) :
    failure = .tooDeep := by
  refine unwind_failed hdisk depthLimit (fun name hmem => ?_) h
  exact fun hnull => htext (Text.subset_of_mem_segments (List.mem_filter.mp hmem).1 hnull)

end Failing

section Arriving

variable {met : Met} {way : Way}

theorem names_of_arrived (hgrounded : disk.Grounded) {text : Text}
    (h : disk.resolution (Path.ofText text) = .arrived met way) :
    ∀ name ∈ way.place disk, IsName name ∧ '/' ∉ name := by
  have hnames := resolution_names h (fun _ _ hmem => Text.mem_splitOn_notMem hmem)
    (fun name hmem => (Path.mem_ofText hmem).2.2)
  intro name hmem
  obtain ⟨origin, names⟩ := way
  cases origin with
  | root => exact hnames name hmem
  | above count =>
      rcases List.mem_append.mp hmem with hhere | hmem
      · exact hgrounded.names name (List.mem_of_mem_take hhere)
      · exact hnames name hmem

-- Where no link stands the system follows none.
theorem go_ne_linkLoop (follow : Location → Text → List Text → Except Obstacle Location)
    {place : Location} {names : List Text} (hnames : ∀ name ∈ names, IsName name)
    (hlinks : ∀ more, more ≠ [] → more <+: names → disk.link? (place ++ more) = none) :
    go disk follow place names ≠ .error (.refused .linkLoop) := by
  induction names generalizing place with
  | nil => simp [go]
  | cons name rest ih =>
      have hname := hnames name List.mem_cons_self
      have hlink := hlinks [name] (by simp) (by simp)
      have hrest : go disk follow (place ++ [name]) rest ≠ .error (.refused .linkLoop) := by
        refine ih (fun other hmem => hnames other (List.mem_cons_of_mem _ hmem)) ?_
        intro more _ hmore
        simpa using hlinks (name :: more) (by simp) (List.cons_prefix_cons.mpr ⟨rfl, hmore⟩)
      simp only [go, hname.ne_nil, hname.ne_dot, hname.ne_dots, or_self, if_false]
      split
      · simp
      split
      · simp
      split
      · split <;> simp
      · rename_i target hentry
        simp [link?, hentry] at hlink
      · exact hrest

theorem find_straight_ne_linkLoop {names : List Text} (hnames : ∀ name ∈ names, IsName name)
    (hstraight : (Way.mk .root names).Straight disk) :
    disk.find ⟨.root, names⟩ ≠ .error .linkLoop := by
  have hlocate : disk.locate ⟨.root, names⟩ ≠ .error (.refused .linkLoop) := by
    unfold locate
    split
    · simp
    · rename_i hsize
      have hlinkless : disk.Linkless names := hstraight.linkless (by omega)
      exact go_ne_linkLoop _ hnames (by simpa [start, Linkless] using hlinkless)
  unfold find
  split
  · rename_i obstacle hobstacle
    cases obstacle with
    | absent place => simp [Obstacle.refusal]
    | refused refusal => exact fun h => hlocate (by rw [hobstacle]; cases h; rfl)
  · split <;> simp

-- A resolution that arrives gives the place of its way. One that still starts at the working
-- folder has to have a spelling that the system takes, or links may be left on the place.
theorem resolve_of_arrived (hgrounded : disk.Grounded) {text : Text}
    (h : disk.resolution (Path.ofText text) = .arrived met way)
    (hspelled : way.origin ≠ .root → Utf8.size way.path.text < pathLimit) :
    disk.resolve (Path.ofText text) = .ok ⟨.root, way.place disk⟩ := by
  have hnames := names_of_arrived hgrounded h
  have hsettled := settled_of_arrived (fun name hmem => (Path.mem_ofText hmem).2.2) h
    fun horigin => ⟨hgrounded, hspelled horigin⟩
  refine resolve_eq_ok_iff.mpr ⟨Or.inl ⟨met, way, h, rfl⟩, ?_, ?_⟩
  · exact (Path.hasNull_eq_false_iff _).mpr fun name hmem => (hnames name hmem).1.noNull
  · exact find_straight_ne_linkLoop (fun name hmem => (hnames name hmem).1) hsettled.straight

theorem resolve_here (hgrounded : disk.Grounded) :
    disk.resolve (Path.ofText ".".toList) = .ok ⟨.root, disk.here⟩ := by
  have hpath : Path.ofText ".".toList = ⟨.here, []⟩ := by decide
  have harrived : disk.resolution (Path.ofText ".".toList) = .arrived [] ⟨.above 0, []⟩ := by
    rw [hpath]
    rfl
  rw [resolve_of_arrived hgrounded harrived fun _ => by decide]
  simp [Way.place]

-- If the system takes the spelling of the whole way, no link is left on its place.
theorem linkless_of_arrived (hgrounded : disk.Grounded) {text : Text}
    (h : disk.resolution (Path.ofText text) = .arrived met way)
    (hspelled : Utf8.size way.path.text < pathLimit) : disk.Linkless (way.place disk) := by
  have hstraight := resolution_straight h
  obtain ⟨origin, names⟩ := way
  cases origin with
  | root => exact hstraight.linkless hspelled
  | above count => exact straight_of_above hgrounded hstraight hspelled

end Arriving

end Disk

end WorkspaceImports

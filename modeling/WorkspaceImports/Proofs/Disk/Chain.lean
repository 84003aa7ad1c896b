import WorkspaceImports.Proofs.Disk.Arrival

namespace WorkspaceImports

namespace Text

theorem ofNat_injective {i j : Nat} (h : ofNat i = ofNat j) : i = j := by
  have hread := congrArg (Nat.ofDigitChars 10 · 0) h
  simpa [ofNat, Nat.ofDigitChars_ten_toDigits] using hread

theorem length_ofNat_mono {i j : Nat} (h : i ≤ j) : (ofNat i).length ≤ (ofNat j).length := by
  have hpos : 0 < (ofNat j).length := List.length_pos_iff.mpr Nat.toDigits_ne_nil
  have hj := (Nat.length_toDigits_le_iff (by decide) hpos).mp (Nat.le_refl (ofNat j).length)
  exact (Nat.length_toDigits_le_iff (by decide) hpos).mpr (Nat.lt_of_le_of_lt h hj)

theorem notMem_ofNat {c : Char} (hc : c.isDigit = false) (i : Nat) : c ∉ ofNat i := by
  intro hmem
  have hdigit := Nat.isDigit_of_mem_toDigits (by decide) (by decide) hmem
  rw [hc] at hdigit
  cases hdigit

end Text

theorem Utf8.size_le (text : Text) : Utf8.size text ≤ 4 * text.length := by
  induction text with
  | nil => simp [size, encode]
  | cons c rest ih =>
      have hchar : (encodeChar c).length ≤ 4 := by
        simp only [encodeChar]
        split
        · simp
        split
        · simp
        split <;> simp
      simp only [size, encode, List.flatMap_cons, List.length_append, List.length_cons] at ih ⊢
      omega

namespace Disk

theorem isName_ofNat (i : Nat) : IsName (Text.ofNat i) where
  ne_nil := Nat.toDigits_ne_nil
  ne_dot h := Text.notMem_ofNat (c := '.') (by decide) i (by simp [h])
  ne_dots h := Text.notMem_ofNat (c := '.') (by decide) i (by simp [h])
  noNull := Text.notMem_ofNat (by decide) i

-- Links of which each leads to the next one, and the last one to a file.
def station (length i : Nat) : Node :=
  if i < length then .link (Text.ofNat (i + 1)) else .file []

def chain (length : Nat) : List (Text × Node) :=
  (List.range (length + 1)).map fun i => (Text.ofNat i, station length i)

-- A disk with nothing but a chain in the working folder.
def chained (here : Location) (length : Nat) : Disk := .tower here here (chain length)

theorem chain_lookup {length i : Nat} (h : i ≤ length) :
    (chain length).lookup (Text.ofNat i) = some (station length i) := by
  have hlookup : ∀ indices : List Nat, i ∈ indices →
      (indices.map fun i => (Text.ofNat i, station length i)).lookup (Text.ofNat i) =
        some (station length i) := by
    intro indices hmem
    induction indices with
    | nil => cases hmem
    | cons j rest ih =>
        rw [List.map_cons, List.lookup_cons]
        by_cases hj : i = j
        · simp [hj]
        · have hne : (Text.ofNat i == Text.ofNat j) = false :=
            beq_false_of_ne fun he => hj (Text.ofNat_injective he)
          rw [hne]
          exact ih ((List.mem_cons.mp hmem).resolve_left hj)
  exact hlookup _ (List.mem_range.mpr (by omega))

section Chained

variable {here : Location} {length : Nat}

theorem chained_nullFree : (chained here length).NullFree := by
  refine nullFree_of_root ?_
  rw [chained, tower_root]
  refine Node.tower_targets (Node.targets_folder fun entry hmem => ?_) here
  obtain ⟨i, -, rfl⟩ := List.mem_map.mp hmem
  unfold station
  split
  · exact Node.targets_link (isName_ofNat (i + 1)).noNull
  · exact Node.targets_file []

theorem chained_at? {i : Nat} (h : i ≤ length) :
    (chained here length).at? (here ++ [Text.ofNat i]) = some (station length i).entry := by
  rw [chained, tower_at?, Node.at?, chain_lookup h]
  rfl

theorem chained_end :
    (chained here length).at? (here ++ [Text.ofNat length]) = some (.file []) := by
  rw [chained_at? (Nat.le_refl length), station, if_neg (Nat.lt_irrefl length)]
  rfl

theorem chained_link? {i : Nat} (h : i < length) :
    (chained here length).link? (here ++ [Text.ofNat i]) = some (Text.ofNat (i + 1)) := by
  rw [link?, chained_at? (Nat.le_of_lt h), station, if_pos h]
  rfl

-- The way to a link of the chain, as it is spelled from the working folder.
def onChain (i : Nat) : Way := (Way.mk (.above 0) []).child (Text.ofNat i)

theorem onChain_place (i : Nat) :
    (onChain i).place (chained here length) = here ++ [Text.ofNat i] := by
  simp [Way.place, onChain, Way.child, chained]

theorem onChain_spelled {i : Nat} (h : i ≤ length) (hsize : (Text.ofNat length).length ≤ 1000) :
    Utf8.size (onChain i).path.text < pathLimit := by
  have hlength := Text.length_ofNat_mono h
  have hbytes := Utf8.size_le (Text.ofNat i)
  have htext : (onChain i).path.text = Text.ofNat i := by
    simp [onChain, Way.child, Way.path, Path.text, Text.join]
  rw [htext, pathLimit]
  omega

theorem onChain_link? {i : Nat} (h : i < length) (hsize : (Text.ofNat length).length ≤ 1000) :
    (onChain i).link? (chained here length) = some (Text.ofNat (i + 1)) := by
  rw [Way.link?, onChain_place, chained_link? h]
  simp [onChain_spelled (Nat.le_of_lt h) hsize]

theorem lookup_onChain {met : Met} {i : Nat} (h : ∀ entry ∈ met, ∃ j < i, entry.1 = onChain j) :
    met.lookup (onChain i) = none := by
  refine List.lookup_eq_none_iff.mpr fun entry hmem => ?_
  obtain ⟨j, hj, hentry⟩ := h entry hmem
  have hne : onChain i ≠ entry.1 := by
    intro he
    have hnames := congrArg Way.names (he.trans hentry)
    have hindex := Text.ofNat_injective (List.cons.inj hnames).1
    omega
  simpa using hne

theorem chained_grounded (hhere : ∀ name ∈ here, IsName name ∧ '/' ∉ name) :
    (chained here length).Grounded where
  folder := by
    have hat := tower_at? here here [] (chain length)
    rw [List.append_nil] at hat
    rw [isFolder, chained, tower_here, hat]
    rfl
  names := by
    rw [chained, tower_here]
    exact hhere

theorem ofText_ofNat (i : Nat) : Path.ofText (Text.ofNat i) = ⟨.here, [Text.ofNat i]⟩ := by
  have hname := isName_ofNat i
  rw [Path.ofText_segment hname.ne_nil (Text.notMem_ofNat (by decide) i),
    Path.filter_name hname.ne_dot]

end Chained

-- What the first of the links on a path fails with, the resolution fails with.
theorem advance_link_failed {disk : Disk} {enter : Met → Way → Text → Outcome} {met : Met}
    {way : Way} {name target : Text} {failure : Failure} (hname : IsName name)
    (hlink : (way.child name).link? disk = some target)
    (hfresh : met.lookup (way.child name) = none)
    (henter : enter ((way.child name, none) :: met) way target = .failed failure)
    (rest : List Text) : advance disk enter met way (name :: rest) = .failed failure := by
  have hnull : name.contains '\x00' = false := by simpa using hname.noNull
  simp only [advance, hname.ne_nil, hname.ne_dot, hname.ne_dots, or_self, if_false, hnull,
    Bool.false_eq_true, hlink, hfresh, henter]

section Following

variable {here : Location} {length : Nat} (hsize : (Text.ofNat length).length ≤ 1000)

include hsize

-- As long as the chain goes on, each link is followed within the one before it.
theorem unwind_chain (depth : Nat) {i : Nat} (hlong : i + depth < length) {met : Met}
    (hmet : ∀ entry ∈ met, ∃ j < i, entry.1 = onChain j) :
    unwind (chained here length) depth met ⟨.above 0, []⟩ [Text.ofNat i] = .failed .tooDeep := by
  induction depth generalizing i met with
  | zero =>
      exact advance_link_failed (isName_ofNat i) (onChain_link? (by omega) hsize)
        (lookup_onChain hmet) rfl []
  | succ depth ih =>
      refine advance_link_failed (isName_ofNat i) (onChain_link? (by omega) hsize)
        (lookup_onChain hmet) ?_ []
      have hslash : '/' ∉ Text.ofNat (i + 1) := Text.notMem_ofNat (by decide) (i + 1)
      rw [Way.entering, if_pos (Path.anchorOf_of_notMem hslash), List.splitOn_eq_singleton hslash]
      refine ih (by omega) fun entry hmem => ?_
      rcases List.mem_cons.mp hmem with rfl | hmem
      · exact ⟨i, by omega, rfl⟩
      · obtain ⟨j, hj, hentry⟩ := hmet entry hmem
        exact ⟨j, by omega, hentry⟩

-- So a chain of more links than may be followed within each other is not followed to its end.
theorem resolution_chain (hlong : depthLimit < length) :
    (chained here length).resolution (Path.ofText (Text.ofNat 0)) = .failed .tooDeep := by
  rw [ofText_ofNat]
  exact unwind_chain hsize depthLimit (by omega) (by simp)

-- The file at the end of a chain is resolved to its own place.
theorem resolve_chain_end (hhere : ∀ name ∈ here, IsName name ∧ '/' ∉ name) :
    (chained here length).resolve (Path.ofText (Text.ofNat length)) =
      .ok ⟨.root, here ++ [Text.ofNat length]⟩ := by
  have hlink : (onChain length).link? (chained here length) = none := by
    rw [Way.link?, onChain_place, link?, chained_end]
    rfl
  have hstraight : (onChain length).Straight (chained here length) :=
    (Way.straight_nil _ _).child hlink
  have harrived : (chained here length).resolution (Path.ofText (Text.ofNat length)) =
      .arrived [] (onChain length) := by
    rw [ofText_ofNat]
    exact unwind_straight depthLimit [] (by simpa using isName_ofNat length) hstraight
  rw [resolve_of_arrived (chained_grounded hhere) harrived fun _ =>
    onChain_spelled (Nat.le_refl length) hsize, onChain_place]

end Following

end Disk

end WorkspaceImports

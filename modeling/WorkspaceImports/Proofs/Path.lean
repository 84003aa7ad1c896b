import WorkspaceImports.Path
import WorkspaceImports.Proofs.Text.Segments
import WorkspaceImports.Text.Utf8

namespace WorkspaceImports

theorem Text.join_prefix {separator : Char} {names more : List Text} (h : names <+: more) :
    Text.join separator names <+: Text.join separator more := by
  obtain ⟨rest, rfl⟩ := h
  induction names with
  | nil => exact List.nil_prefix
  | cons name names ih =>
      cases names with
      | nil =>
          cases rest with
          | nil => exact List.prefix_rfl
          | cons next rest =>
              exact ⟨separator :: Text.join separator (next :: rest), by simp [join]⟩
      | cons second names =>
          simpa [Text.join, List.prefix_append_right_inj] using ih

theorem Utf8.size_le_of_prefix {short long : Text} (h : short <+: long) :
    Utf8.size short ≤ Utf8.size long := by
  obtain ⟨rest, rfl⟩ := h
  simp [Utf8.size, Utf8.encode]

namespace Path

open Text (volume)

-- The spelling of a folder begins the spelling of what lies in it. Only the working folder's own
-- dot is left out of longer paths.
theorem text_mono {anchor : Anchor} {names more : List Text} (h : names <+: more)
    (hdot : anchor ≠ .here ∨ names ≠ []) :
    (Path.mk anchor names).text <+: (Path.mk anchor more).text := by
  have hjoin : Text.join '/' names <+: Text.join '/' more := Text.join_prefix h
  cases anchor with
  | root => simpa [text] using hjoin
  | doubleRoot => simpa [text] using hjoin
  | here =>
      cases names with
      | nil => simp at hdot
      | cons name names =>
          obtain ⟨rest, rfl⟩ := h
          exact hjoin

theorem size_le {anchor : Anchor} {names more : List Text} (h : names <+: more)
    (hdot : anchor ≠ .here ∨ names ≠ []) :
    Utf8.size (Path.mk anchor names).text ≤ Utf8.size (Path.mk anchor more).text :=
  Utf8.size_le_of_prefix (text_mono h hdot)

theorem mem_ofText {text name : Text} (h : name ∈ (ofText text).names) :
    name ≠ [] ∧ name ≠ ['.'] ∧ '/' ∉ name := by
  obtain ⟨hsegment, hdot⟩ := List.mem_filter.mp h
  have hname := Text.mem_segments hsegment
  exact ⟨hname.1, by simpa using hdot, hname.2⟩

theorem mem_ofPieces {pieces : List Text} {name : Text} (h : name ∈ (ofPieces pieces).names) :
    name ≠ [] ∧ name ≠ ['.'] := by
  obtain ⟨hpiece, hdot⟩ := List.mem_filter.mp h
  exact ⟨by simpa using (List.mem_filter.mp hpiece).2, by simpa using hdot⟩

theorem anchorOf_of_notMem {text : Text} (h : '/' ∉ text) : anchorOf text = .here := by
  unfold anchorOf
  split <;> simp_all

theorem exists_join_eq (c : Char) (piece : Text) (rest : List Text) :
    ∃ more, Text.join '/' ((c :: piece) :: rest) = c :: more := by
  cases rest with
  | nil => exact ⟨piece, by simp [Text.join]⟩
  | cons next rest => exact ⟨_, Text.join_cons_cons _ _ _⟩

theorem anchorOfPieces_eq {pieces : List Text} (h : ∀ piece ∈ pieces, '/' ∉ piece) :
    anchorOfPieces pieces = anchorOf (Text.join '/' pieces) := by
  have hfirst (c : Char) (piece : Text) (hmem : (c :: piece) ∈ pieces) : c ≠ '/' :=
    fun hc => h _ hmem (hc ▸ List.mem_cons_self)
  -- at most three empty pieces count, before the first one that is not empty
  match pieces with
  | [] | [[]] | [[], []] | [[], [], []] => rfl
  | (c :: piece) :: rest =>
      obtain ⟨more, hjoin⟩ := exists_join_eq c piece rest
      have hc := hfirst c piece (by simp)
      rw [hjoin]
      simp [anchorOfPieces, anchorOf, hc]
  | [] :: (c :: piece) :: rest =>
      obtain ⟨more, hjoin⟩ := exists_join_eq c piece rest
      have hc := hfirst c piece (by simp)
      rw [Text.join_cons_cons, hjoin]
      simp [anchorOfPieces, anchorOf, hc]
  | [] :: [] :: (c :: piece) :: rest =>
      obtain ⟨more, hjoin⟩ := exists_join_eq c piece rest
      have hc := hfirst c piece (by simp)
      rw [Text.join_cons_cons, Text.join_cons_cons, hjoin]
      simp [anchorOfPieces, anchorOf, hc]
  | [] :: [] :: [] :: next :: rest =>
      rw [Text.join_cons_cons, Text.join_cons_cons, Text.join_cons_cons]
      rfl

-- Pieces without slashes lead where the text does that they are joined to.
theorem ofPieces_eq_ofText {pieces : List Text} (h : ∀ piece ∈ pieces, '/' ∉ piece) :
    ofPieces pieces = ofText (Text.join '/' pieces) := by
  rw [ofPieces, ofText, anchorOfPieces_eq h]
  cases pieces with
  | nil => rfl
  | cons piece rest =>
      rw [Text.segments, Text.join, List.splitOn_intercalate '/' h (List.cons_ne_nil piece rest)]

-- One segment, written alone, is the path to it. A single dot leads nowhere.
theorem ofText_segment {segment : Text} (hne : segment ≠ []) (hslash : '/' ∉ segment) :
    ofText segment = ⟨.here, [segment].filter (· ≠ ['.'])⟩ := by
  rw [ofText, anchorOf_of_notMem hslash, Text.segments_of_notMem hslash hne]

theorem filter_name {name : Text} (h : name ≠ ['.']) : [name].filter (· ≠ ['.']) = [name] :=
  List.filter_cons_of_pos (by simpa using h)

-- Leaving out single dots leaves out no other character.
theorem forall_mem_filter_iff {c : Char} (hc : c ≠ '.') (names : List Text) :
    (∀ name ∈ names.filter (· ≠ ['.']), c ∉ name) ↔ ∀ name ∈ names, c ∉ name := by
  constructor
  · intro h name hmem
    by_cases hdot : name = ['.']
    · simp [hdot, hc]
    · exact h name (List.mem_filter.mpr ⟨hmem, by simpa using hdot⟩)
  · exact fun h name hmem => h name (List.mem_filter.mp hmem).1

theorem collapse_append (before names more : List Text) :
    collapse before (names ++ more) = collapse (collapse before names) more := by
  induction names generalizing before with
  | nil => rfl
  | cons name rest ih =>
      simp only [List.cons_append, collapse]
      split <;> exact ih _

theorem volume_ofText_le (text : Text) : volume (ofText text).names ≤ text.length := by
  have hsplit := Text.volume_splitOn_le '/' text
  have hsegments : volume (Text.segments '/' text) ≤ volume (text.splitOn '/') :=
    Text.volume_filter_le (!·.isEmpty) (text.splitOn '/')
  have hnames := Text.volume_filter_le (· ≠ ['.']) (Text.segments '/' text)
  simp only [ofText]
  omega

theorem volume_join_le (path next : Path) :
    volume (path.join next).names ≤ volume path.names + volume next.names := by
  unfold join
  split <;> simp

theorem volume_collapse_le (before names : List Text) :
    volume (collapse before names) ≤ volume before + volume names := by
  induction names generalizing before with
  | nil => simp [collapse]
  | cons name rest ih =>
      have hdrop := Text.volume_dropLast_le before
      have hbefore := ih before.dropLast
      have hname := ih (before ++ [name])
      simp only [Text.volume_append, Text.volume_cons, Text.volume_nil] at hname ⊢
      rw [collapse]
      split <;> omega

end Path

end WorkspaceImports

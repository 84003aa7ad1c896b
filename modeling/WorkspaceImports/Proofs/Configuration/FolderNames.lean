import Mathlib.Data.List.Forall2
import WorkspaceImports.Configuration
import WorkspaceImports.Proofs.Text.Segments
import WorkspaceImports.Proofs.Text.Trim

namespace WorkspaceImports.FolderNames

section Pieces

variable {α : Type} [BEq α] [LawfulBEq α] {comma : α} {isBlank : α → Bool}

-- A name as a list with commas gives it: not empty, without a comma and without blanks around it.
structure Listed (comma : α) (isBlank : α → Bool) (name : List α) : Prop where
  ne_nil : name ≠ []
  noComma : comma ∉ name
  trimmed : Text.trimBy isBlank name = name

theorem listed_of_mem_pieces {list name : List α} (h : name ∈ pieces comma isBlank list) :
    Listed comma isBlank name := by
  obtain ⟨hmem, hkept⟩ := List.mem_filter.mp h
  obtain ⟨piece, hpiece, rfl⟩ := List.mem_map.mp hmem
  constructor
  case ne_nil => simpa using hkept
  case noComma =>
    intro hc
    exact Text.mem_splitOn_notMem hpiece (Text.trimBy_subset hc)
  case trimmed => exact Text.trimBy_trimBy

theorem pieces_append (left right : List α) :
    pieces comma isBlank (left ++ comma :: right) =
      pieces comma isBlank left ++ pieces comma isBlank right := by
  simp only [pieces, List.splitOn_append_cons_self, List.map_append, List.filter_append]

theorem pieces_padded {name padded : List α} (hblank : isBlank comma = false)
    (hname : Listed comma isBlank name) (h : Text.Padded isBlank name padded) :
    pieces comma isBlank padded = [name] := by
  have hcomma : comma ∉ padded := h.notMem hblank hname.noComma
  have htrim : Text.trimBy isBlank padded = name := h.trimBy_eq.trans hname.trimmed
  have hkept : (!name.isEmpty) = true := by simpa using hname.ne_nil
  simp only [pieces, List.splitOn_eq_singleton hcomma, List.map_cons, List.map_nil, htrim,
    List.filter_cons, hkept, if_true, List.filter_nil]

-- Names with commas between them are read back, whatever blanks stand around each.
theorem pieces_intercalate (hblank : isBlank comma = false) {names padded : List (List α)}
    (hnames : ∀ name ∈ names, Listed comma isBlank name)
    (h : List.Forall₂ (Text.Padded isBlank) names padded) :
    pieces comma isBlank (List.intercalate [comma] padded) = names := by
  induction h with
  | nil => simp [pieces, Text.trimBy]
  | @cons name piece names padded hpiece hrest ih =>
      obtain ⟨hname, hothers⟩ := List.forall_mem_cons.mp hnames
      have hfirst := pieces_padded hblank hname hpiece
      cases padded with
      | nil =>
          cases hrest
          rw [List.intercalate_singleton, hfirst]
      | cons next more =>
          rw [List.intercalate_cons_cons, List.append_assoc, List.singleton_append, pieces_append,
            hfirst, ih hothers, List.singleton_append]

-- How a list with commas is taken apart: at each comma on its own, into names that are in normal
-- form. Such names are read back from any list of them, so these are all the names there are.
structure NormalForm (comma : α) (isBlank : α → Bool) (split : List α → List (List α)) : Prop where
  listed : ∀ list, ∀ name ∈ split list, Listed comma isBlank name
  append : ∀ left right, split (left ++ comma :: right) = split left ++ split right
  padded : ∀ names padded, (∀ name ∈ names, Listed comma isBlank name) →
    List.Forall₂ (Text.Padded isBlank) names padded →
      split (List.intercalate [comma] padded) = names
  again : ∀ list, split (List.intercalate [comma] (split list)) = split list
  exists_iff : ∀ names, (∃ list, split list = names) ↔ ∀ name ∈ names, Listed comma isBlank name

theorem pieces_normalForm (hblank : isBlank comma = false) :
    NormalForm comma isBlank (pieces comma isBlank) := by
  have hpadded : ∀ names : List (List α), List.Forall₂ (Text.Padded isBlank) names names :=
    fun names => List.forall₂_same.mpr fun name _ => Text.padded_self isBlank name
  have hback : ∀ names, (∀ name ∈ names, Listed comma isBlank name) →
      pieces comma isBlank (List.intercalate [comma] names) = names :=
    fun names hnames => pieces_intercalate hblank hnames (hpadded names)
  constructor
  case listed => exact fun list name => listed_of_mem_pieces
  case append => exact pieces_append
  case padded => exact fun names padded => pieces_intercalate hblank
  case again => exact fun list => hback _ fun name => listed_of_mem_pieces
  case exists_iff =>
    intro names
    constructor
    · rintro ⟨list, rfl⟩ name
      exact listed_of_mem_pieces
    · intro hnames
      exact ⟨_, hback names hnames⟩

end Pieces

theorem ofText_toText {names : List Text} (h : ∀ name ∈ names, Listed ',' Text.isBlank name) :
    ofText (toText names) = names :=
  pieces_intercalate (by decide) h
    (List.forall₂_same.mpr fun name _ => Text.padded_self Text.isBlank name)

-- Folder names are read from a list in normal form, also where the list is no text.
theorem ofText_normalForm :
    NormalForm ',' Text.isBlank ofText ∧
    (∀ list, ofText (toText (ofText list)) = ofText list) ∧
    NormalForm (.char ',') Letter.isBlank ofLetters := by
  have htext : NormalForm ',' Text.isBlank ofText := pieces_normalForm (by decide)
  exact ⟨htext, htext.again, pieces_normalForm (by decide)⟩

-- Blanks within a name stay, and those around it and empty pieces go.
example : ofText " gen src ,,\t,\n main".toList = ["gen src".toList, "main".toList] := by
  decide +kernel

end WorkspaceImports.FolderNames

import WorkspaceImports.Proofs.Import.Search

namespace WorkspaceImports

namespace Inquiry

variable {α : Type}

-- One search, and another one if it finds nothing.
def orElse (first second : Inquiry (Option α)) : Inquiry (Option α) :=
  first.andThen fun
    | some found => .pure (some found)
    | none => second

-- A search that finds something leaves nothing to ask.
theorem orElse_of_some {first : Inquiry (Option α)} {found : α} (h : first.value = some found)
    (second : Inquiry (Option α)) : first.orElse second = first := by
  simp only [orElse, andThen, h, pure, List.append_nil]
  rw [← h]

theorem orElse_none (first : Inquiry (Option α)) : first.orElse (.pure none) = first := by
  cases hvalue : first.value with
  | some found => exact orElse_of_some hvalue _
  | none =>
      simp only [orElse, andThen, hvalue, pure, List.append_nil]
      rw [← hvalue]

end Inquiry

namespace Import

variable (disk : Disk) (check : Check) (written : Wording)

-- A segment in its own place changes nothing, so the owner's folder is looked in first.
theorem tryFolders_own {base : List Wording} {own : Wording} (first : Option Wording)
    (h : base[sourceFolder]? = some own) (rest : List FolderName) :
    tryFolders disk check written first base (own :: rest) =
      (attempt disk check written first base).orElse
        (tryFolders disk check written first base rest) := by
  obtain ⟨hlong, hown⟩ := List.getElem?_eq_some_iff.mp h
  have hset : base.set sourceFolder own = base := by rw [← hown, List.set_getElem_self]
  simp only [tryFolders, Nat.not_le_of_lt hlong, if_false, hset, Inquiry.orElse,
    Inquiry.andThen]
  cases (attempt disk check written first base).value <;> rfl

variable {owner : Uri} {own : Text}

-- To look in the owner's own source folder and then in others is the search with one folder, and
-- then the search through the others.
theorem resolve_own_orElse (h : owner.segments.tail.dropLast[1]? = some own)
    (names rest : List FolderName) :
    resolve disk check ⟨.multiFolder, .text own :: rest⟩ owner written =
      (resolve disk check ⟨.singleFolder, names⟩ owner written).orElse
        (resolve disk check ⟨.multiFolder, rest⟩ owner written) := by
  cases habsolute : isAbsolute written with
  | true =>
      simp only [resolve_of_isAbsolute _ _ _ _ habsolute]
      rfl
  | false =>
      have hown : (owner.segments.tail.dropLast.map Wording.text)[sourceFolder]? =
          some (.text own) := by
        rw [List.getElem?_map, sourceFolder, h, Option.map_some]
      simp only [resolve, habsolute, Bool.false_eq_true, if_false, innerSegments_eq]
      exact tryFolders_own disk check written _ hown rest

-- The search with one folder is the search with several of which the owner's own source folder is
-- the only one: in what is found, in what is asked and in the log. If it comes first among others,
-- what is found there is found, and the others are not looked in.
theorem resolve_own_folder_first (disk : Disk) (check : Check) (written : Wording) {owner : Uri}
    {own : Text} (h : owner.segments.tail.dropLast[1]? = some own) :
    let within := fun names => resolve disk check ⟨.singleFolder, names⟩ owner written
    let among := fun names => resolve disk check ⟨.multiFolder, names⟩ owner written
    (∀ names, within names = among [.text own]) ∧
    ∀ names rest found, (within names).value = some found →
      among (.text own :: rest) = within names := by
  intro within among
  constructor
  · intro names
    cases habsolute : isAbsolute written with
    | true => simp only [within, among, resolve_of_isAbsolute _ _ _ _ habsolute]
    | false =>
        have hnone : among [] = .pure none := by
          simp only [among, resolve, habsolute, Bool.false_eq_true, if_false, tryFolders]
        simp only [among] at hnone ⊢
        rw [resolve_own_orElse disk check written h names, hnone, Inquiry.orElse_none]
  · intro names rest found hfound
    simp only [among]
    rw [resolve_own_orElse disk check written h names, Inquiry.orElse_of_some hfound]

-- A check that knows one file, in the source folder of the owner below.
private def servedInSrc : Check := fun wording =>
  ⟨.value (.bool (wording = .text "platform:/resource/proj/src/b.proto".toList)), []⟩

-- The import's own path takes over at the source folder itself, and is found there.
theorem resolve_own_folder_before_others :
    let owner := Uri.parse "platform:/resource/proj/src/api/a.proto".toList
    let within := resolve ⟨[], []⟩ servedInSrc ⟨.singleFolder, []⟩ owner
    let among := fun names : List String => resolve ⟨[], []⟩ servedInSrc
      ⟨.multiFolder, names.map fun name => .text name.toList⟩ owner
    let served := Wording.text "src/b.proto".toList
    let missing := Wording.text "c.proto".toList
    owner.segments.tail.dropLast[1]? = some "src".toList ∧
    (within served).value = some (.text "platform:/resource/proj/src/b.proto".toList) ∧
    among ["src"] served = within served ∧ among ["src", "gen"] served = within served ∧
    among ["src"] missing = within missing ∧
    (among ["src"] missing).asked =
      [.text "platform:/resource/proj/src/api/c.proto".toList] := by
  intro owner within among served missing
  have hown : owner.segments.tail.dropLast[1]? = some "src".toList := by decide +kernel
  have hfound : (within served).value =
      some (.text "platform:/resource/proj/src/b.proto".toList) := by
    decide +kernel
  obtain ⟨honly, hfirst⟩ := resolve_own_folder_first ⟨[], []⟩ servedInSrc served hown
  obtain ⟨hmissed, -⟩ := resolve_own_folder_first ⟨[], []⟩ servedInSrc missing hown
  exact ⟨hown, hfound, (honly []).symm, hfirst [] [.text "gen".toList] _ hfound, (hmissed []).symm,
    by decide +kernel⟩

end Import

end WorkspaceImports

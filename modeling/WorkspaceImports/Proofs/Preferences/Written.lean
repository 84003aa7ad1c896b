import WorkspaceImports.Proofs.Configuration.FolderNames
import WorkspaceImports.Proofs.Json.Reading
import WorkspaceImports.Proofs.Json.Writer
import WorkspaceImports.Proofs.Preferences.Unmixed

namespace WorkspaceImports

namespace Configuration

variable {strategy : Strategy} {names : List Text} {folders : Json} {members : List (Text × Json)}

theorem readFolderNames_written (hfolders : folders = .array (names.map .text) ∨
      (∀ name ∈ names, FolderNames.Listed ',' Text.isBlank name) ∧
        folders = .text (FolderNames.toText names)) (name : Text) :
    readFolderNames name folders = .ok (names.map .text) := by
  rcases hfolders with rfl | ⟨hlisted, rfl⟩
  · exact readItems_texts name names
  · rw [readFolderNames, FolderNames.ofText_toText hlisted]

-- Which of the two settings comes first does not matter.
theorem ofJson_written (hread : ∀ name, readFolderNames name folders = .ok (names.map .text))
    (hmembers : members.Perm
      [("fileResolutionType".toList, .text strategy.name), ("folderNames".toList, folders)]) :
    ofJson (.object members) = .ok ⟨strategy, names.map .text⟩ := by
  have hnodup : (members.map Prod.fst).Nodup := by
    rw [(hmembers.map Prod.fst).nodup_iff]
    simp
  have hmember {name : Text} {json : Json} (hmem : (name, json) ∈
      [("fileResolutionType".toList, .text strategy.name), ("folderNames".toList, folders)]) :
      Json.member? name members = some json :=
    (Json.member?_eq_some_iff hnodup).mpr (hmembers.mem_iff.mpr hmem)
  have hstrategy : strategyIn members =
      some ("fileResolutionType".toList, .text strategy.name) := by
    rw [strategyIn, Json.memberOf?, hmember List.mem_cons_self]
    rfl
  have hnames : foldersIn members = some ("folderNames".toList, folders) := by
    rw [foldersIn, Json.memberOf?, hmember (List.mem_cons_of_mem _ List.mem_cons_self)]
    rfl
  rw [ofJson_object_eq_ok_iff, strategyOf_eq, folderNamesOf_eq, hstrategy, hnames]
  exact ⟨by simp only [settle, readStrategy, Strategy.ofText?_name], hread _⟩

end Configuration

namespace Preferences

variable {strategy : Strategy} {names : List Text} {folders : Json} {members : List (Text × Json)}

theorem height_written (hfolders : folders = .array (names.map .text) ∨
      (∀ name ∈ names, FolderNames.Listed ',' Text.isBlank name) ∧
        folders = .text (FolderNames.toText names))
    (hmembers : members.Perm
      [("fileResolutionType".toList, .text strategy.name), ("folderNames".toList, folders)]) :
    (Json.object members).height ≤ 2 := by
  have hfolders : folders.height ≤ 1 := by
    rcases hfolders with rfl | ⟨-, rfl⟩
    · have hnames : Json.itemsHeight (names.map .text) ≤ 0 :=
        Json.itemsHeight_le_iff.mpr (by simp [Json.height])
      rw [Json.height]
      omega
    · simp [Json.height]
  have hmembers : Json.membersHeight members ≤ 1 := by
    refine Json.membersHeight_le_iff.mpr fun member hmem => ?_
    rcases List.mem_pair.mp (hmembers.mem_iff.mp hmem) with rfl | rfl
    · simp [Json.height]
    · exact hfolders
  rw [Json.height]
  omega

section Write

-- The names in an array, without blanks.
def writeArray (ascii : Bool) (names : List Text) : Text :=
  '[' :: (Text.join ',' (names.map (Json.quote ascii)) ++ [']'])

-- Preferences as they may be written, with what is no ASCII character escaped or not, and with an
-- array or a list with commas for the names.
def write (ascii : Bool) (strategy : Strategy) (folders : Text) : Text :=
  let quote := Json.quote ascii
  '\x7b' :: (quote "fileResolutionType".toList ++ ':' :: quote strategy.name ++
    ',' :: (quote "folderNames".toList ++ ':' :: folders) ++ ['\x7d'])

variable (ascii : Bool) (names : List Text)

theorem spells_writeArray : Json.Spells (.array (names.map .text)) (writeArray ascii names) := by
  by_cases hne : names = []
  · subst hne
    exact .emptyArray (by simp [Text.join])
  · let item (name : Text) := Json.Part.bare (Json.text name) (Json.quote ascii name)
    have hfound : names.map Json.text = (names.map item).map Json.Part.found := by
      rw [List.map_map]
      rfl
    have htext : names.map (Json.quote ascii) = (names.map item).map Json.Part.text := by
      simp [item]
    rw [writeArray, hfound, htext]
    refine .array (by simpa using hne) ?_ ?_
    · exact List.forall_mem_map.mpr fun name _ => Json.Part.spaced_bare _ _
    · exact List.forall_mem_map.mpr fun name _ => .text (Json.quotes_quote ascii name)

theorem document_write (strategy : Strategy) {written : Text} (h : Json.Spells folders written) :
    Json.Document (.object [("fileResolutionType".toList, .text strategy.name),
      ("folderNames".toList, folders)]) (write ascii strategy written) := by
  let name (text : Text) := Json.Part.bare text (Json.quote ascii text)
  let parts : List (Json.Part Text × Json.Part Json) :=
    [(name "fileResolutionType".toList, .bare (.text strategy.name) (name strategy.name).core),
      (name "folderNames".toList, .bare folders written)]
  have hspaced : ∀ part ∈ parts, part.1.Spaced ∧ part.2.Spaced := by
    simp [parts, name, Json.Part.spaced_bare]
  have hnames : ∀ part ∈ parts, Json.Quotes part.1.found part.1.core := by
    simp [parts, name, Json.Part.bare, Json.quotes_quote]
  have hvalues : ∀ part ∈ parts, Json.Spells part.2.found part.2.core :=
    List.forall_mem_cons.mpr ⟨.text (Json.quotes_quote ascii _), List.forall_mem_singleton.mpr h⟩
  refine ⟨.bare _ _, rfl, ?_, Json.Part.spaced_bare _ _,
    .object (List.cons_ne_nil _ _) hspaced hnames hvalues⟩
  simp [name, Text.join, write, Json.Part.bare, Json.Part.text]

theorem ascii_writeArray : ∀ c ∈ writeArray true names, c.toNat < 0x80 := by
  intro c hmem
  simp only [writeArray, List.mem_cons, List.mem_append, List.not_mem_nil, or_false] at hmem
  rcases hmem with rfl | hmem | rfl
  · decide
  · rcases Text.mem_join hmem with rfl | ⟨part, hpart, hc⟩
    · decide
    · obtain ⟨name, -, rfl⟩ := List.mem_map.mp hpart
      exact Json.ascii_quote name c hc
  · decide

theorem ascii_write (strategy : Strategy) {written : Text} (h : ∀ c ∈ written, c.toNat < 0x80) :
    ∀ c ∈ write true strategy written, c.toNat < 0x80 := by
  intro c hmem
  simp only [write, List.mem_cons, List.mem_append, List.not_mem_nil, or_false] at hmem
  rcases hmem with rfl | ((hmem | rfl | hmem) | rfl | hmem | rfl | hmem) | rfl
  · decide
  · exact Json.ascii_quote _ c hmem
  · decide
  · exact Json.ascii_quote _ c hmem
  · decide
  · exact Json.ascii_quote _ c hmem
  · decide
  · exact h c hmem
  · decide

-- Every configuration can be written, and ASCII characters are enough for it.
theorem exists_written (strategy : Strategy) :
    ∃ text, Json.Document (.object [("fileResolutionType".toList, .text strategy.name),
      ("folderNames".toList, .array (names.map .text))]) text ∧ ∀ c ∈ text, c.toNat < 0x80 :=
  ⟨_, document_write true strategy (spells_writeArray true names),
    ascii_write strategy (ascii_writeArray names)⟩

end Write

-- Preferences are read as they are written: with the two settings in either order, any blanks
-- between the parts and any spelling of the strings, and with the names in an array or, where a
-- list with commas can hold them, in such a list.
theorem load_written {disk : Disk} {path : Path} {strategy : Strategy} {names : List Text}
    {folders : Json} {members : List (Text × Json)} {text : Text}
    (hfolders : folders = .array (names.map .text) ∨
      (∀ name ∈ names, FolderNames.Listed ',' Text.isBlank name) ∧
        folders = .text (FolderNames.toText names))
    (hmembers : members.Perm
      [("fileResolutionType".toList, .text strategy.name), ("folderNames".toList, folders)])
    (hwritten : Json.Document (.object members) text)
    (hread : disk.read path = .ok (Utf8.encode text)) :
    load disk path = .ok ⟨strategy, names.map .text⟩ := by
  have hheight : (Json.object members).height ≤ Json.Reader.depthLimit :=
    Nat.le_trans (height_written hfolders hmembers) (by decide)
  have hparsed := Json.Reader.read_document hwritten.unify hheight
  have hconfiguration := Configuration.ofJson_written
    (Configuration.readFolderNames_written hfolders) hmembers
  exact load_eq_ok_iff.mpr ⟨_, hread, ofBytes_eq_ok_iff.mpr
    ⟨text, members, rfl, hparsed, hconfiguration⟩⟩

-- Preferences with line ends and escapes of all kinds, and ones with a list.
private def oddNames : List Text := ["\x07\"\\, 😀\r".toList, "é ".toList, []]

private def oddText : Text :=
  ("\r\n\x7b\t\"folderNames\" :\r[ \"\\u0007\\\"\\\\, \\ud83d\\ude00\\u000d\",\r\n\"é \" ,\"\"]" ++
    ",\n\"fileResolutionType\":\"MULTI_FOLDER\" \x7d\r\n").toList

private def oddItems : List (Json.Part Json) :=
  let item (before : Text) (ascii : Bool) (name after : Text) : Json.Part Json :=
    ⟨.text name, before, Json.quote ascii name, after⟩
  [item [' '] true "\x07\"\\, 😀\r".toList [], item ['\r', '\n'] false "é ".toList [' '],
    item [] true [] []]

private def oddParts : List (Json.Part Text × Json.Part Json) :=
  [(⟨"folderNames".toList, ['\t'], Json.quote true "folderNames".toList, [' ']⟩,
      ⟨.array (oddItems.map Json.Part.found), ['\r'],
        '[' :: (Text.join ',' (oddItems.map Json.Part.text) ++ [']']), []⟩),
    (⟨"fileResolutionType".toList, ['\n'], Json.quote true "fileResolutionType".toList, []⟩,
      ⟨.text Strategy.multiFolder.name, [], Json.quote true Strategy.multiFolder.name, [' ']⟩)]

private theorem document_odd :
    Json.Document (.object (oddParts.map fun part => (part.1.found, part.2.found))) oddText := by
  have hitems : Json.Spells (.array (oddItems.map Json.Part.found)) _ :=
    .array (by simp [oddItems]) (by simp [oddItems, Json.Part.Spaced, Json.Reader.isBlank])
      (by simp [oddItems, Json.Spells.text, Json.quotes_quote])
  have hspaced : ∀ part ∈ oddParts, part.1.Spaced ∧ part.2.Spaced := by
    simp [oddParts, Json.Part.Spaced, Json.Reader.isBlank]
  have hnames : ∀ part ∈ oddParts, Json.Quotes part.1.found part.1.core := by
    simp [oddParts, Json.quotes_quote]
  have hvalues : ∀ part ∈ oddParts, Json.Spells part.2.found part.2.core :=
    List.forall_mem_cons.mpr ⟨hitems,
      List.forall_mem_singleton.mpr (.text (Json.quotes_quote true _))⟩
  exact ⟨⟨_, ['\r', '\n'], _, ['\r', '\n']⟩, rfl, by decide +kernel,
    by simp [Json.Part.Spaced, Json.Reader.isBlank],
    .object (by simp [oddParts]) hspaced hnames hvalues⟩

private def writtenDisk : Disk where
  entries := [("odd.json".toList, .file (Utf8.encode oddText)),
    ("list.json".toList, .file (Utf8.encode
      ("\x7b\"fileResolutionType\":\"SINGLE_FOLDER\"," ++
        "\"folderNames\":\"gen src,main\"\x7d").toList))]
  here := []

theorem load_written_odd :
    Json.Document (.object (oddParts.map fun part => (part.1.found, part.2.found))) oddText ∧
    writtenDisk.read (Path.ofText "/odd.json".toList) = .ok (Utf8.encode oddText) ∧
    load writtenDisk (Path.ofText "/odd.json".toList) = .ok ⟨.multiFolder, oddNames.map .text⟩ ∧
    load writtenDisk (Path.ofText "/list.json".toList) =
      .ok ⟨.singleFolder, [.text "gen src".toList, .text "main".toList]⟩ := by
  have hread : writtenDisk.read (Path.ofText "/odd.json".toList) = .ok (Utf8.encode oddText) := by
    decide +kernel
  refine ⟨document_odd, hread, ?_, ?_⟩
  · exact load_written (Or.inl rfl) (List.Perm.swap _ _ _) document_odd hread
  · have hlisted : ∀ name ∈ ["gen src".toList, "main".toList],
        FolderNames.Listed ',' Text.isBlank name := by
      simp only [List.forall_mem_cons]
      exact ⟨⟨by decide, by decide, by decide⟩, ⟨by decide, by decide, by decide⟩, by simp⟩
    have hwritten := document_write false .singleFolder
      (.text (Json.quotes_quote false "gen src,main".toList))
    exact load_written (Or.inr ⟨hlisted, rfl⟩) (List.Perm.refl _) hwritten (by decide +kernel)

end Preferences

end WorkspaceImports

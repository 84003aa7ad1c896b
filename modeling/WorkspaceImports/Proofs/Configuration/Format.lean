import WorkspaceImports.Configuration
import WorkspaceImports.Proofs.Json.Member

namespace WorkspaceImports

namespace Strategy

theorem name_of_ofName? {name : Text} {strategy : Strategy}
    (h : Strategy.ofName? name = some strategy) : strategy.name = name := by
  simpa using List.find?_some h

@[simp] theorem ofName?_name (strategy : Strategy) :
    Strategy.ofName? strategy.name = some strategy := by
  cases strategy <;> decide +kernel

theorem ofText?_eq_some_iff {text : Text} {strategy : Strategy} :
    ofText? text = some strategy ↔ Text.upper (Text.trim text) = strategy.name := by
  constructor
  · intro h
    exact (name_of_ofName? h).symm
  · intro h
    rw [ofText?, h, ofName?_name]

theorem ofText?_name (strategy : Strategy) : ofText? strategy.name = some strategy := by
  cases strategy <;> decide +kernel

-- What a value says of the strategy: one of the words, in any case and with blanks around it.
inductive ReadFrom : Json → Strategy → Prop
  | word {text : Text} {strategy : Strategy} (h : Text.upper (Text.trim text) = strategy.name) :
      ReadFrom (.text text) strategy

-- What is told of any other value: the kind of the complaint, the place in the value, and the
-- words.
def faults (_ : Json) : List (Text × List Text × Text) :=
  [("enum".toList, [], "Input should be 'SINGLE_FOLDER' or 'MULTI_FOLDER'".toList)]

end Strategy

namespace FolderNames

-- What a value says of the folder names: there are none, or those in a list with commas, without
-- the blanks around them, or just those in an array.
inductive ReadFrom : Json → List FolderName → Prop
  | null : ReadFrom .null []
  | list (list : Text) :
      ReadFrom (.text list) ((((list.splitOn ',').map Text.trim).filter (· ≠ [])).map .text)
  | array (names : List Text) : ReadFrom (.array (names.map .text)) (names.map .text)

theorem ofText_eq (list : Text) :
    ofText list = ((list.splitOn ',').map Text.trim).filter (· ≠ []) := by
  have hkept : (fun piece : Text => !piece.isEmpty) = fun piece => decide (piece ≠ []) := by
    funext piece
    cases piece <;> rfl
  rw [← hkept]
  rfl

-- In an array each item that is no text is told of, at its position.
def faults : Json → List (Text × List Text × Text)
  | .array items => items.zipIdx.filterMap fun
      | (.text _, _) => none
      | (_, position) =>
          some ("string_type".toList, [Text.ofNat position],
            "Input should be a valid string".toList)
  | _ => [("tuple_type".toList, [], "Input should be a valid tuple".toList)]

end FolderNames

-- What is told of an issue: the kind of the complaint, the place, and the words.
def Issue.told (issue : Issue) : Text × List Text × Text :=
  (issue.complaint.code, issue.place, issue.complaint.message)

namespace Configuration

section Setting

variable {α : Type} (ReadFrom : Json → α → Prop) (faults : Json → List (Text × List Text × Text))

-- The value of a setting is what is read from the value given for it, and without one it is
-- standard.
def Setting (standard : α) (given : Option (Text × Json)) (value : α) : Prop :=
  match given with
  | none => value = standard
  | some (_, json) => ReadFrom json value

-- What is told of a setting: nothing if there is no value for it or one that can be read, and else
-- the faults of the value, at places under the name that it is given under.
def Told (given : Option (Text × Json)) (told : List (Text × List Text × Text)) : Prop :=
  match given with
  | none => told = []
  | some (name, json) =>
      ((∃ value, ReadFrom json value) ∧ told = []) ∨
        ((∀ value, ¬ReadFrom json value) ∧
          told = (faults json).map fun (code, place, message) => (code, name :: place, message))

-- A reader of a setting's values that accepts those that can be read and tells the faults of all
-- others.
structure Exact (read : Text → Json → Except (List Issue) α) : Prop where
  accepts : ∀ {name json value}, json.Whole → (read name json = .ok value ↔ ReadFrom json value)
  refuses : ∀ {name json issues}, json.Whole → read name json = .error issues →
    issues.map Issue.told =
      (faults json).map fun (code, place, message) => (code, name :: place, message)

def settle (read : Text → Json → Except (List Issue) α) (standard : α) :
    Option (Text × Json) → Except (List Issue) α
  | none => .ok standard
  | some (name, json) => read name json

variable {ReadFrom faults} {read : Text → Json → Except (List Issue) α}
  {given : Option (Text × Json)}

theorem Exact.settle_eq_ok_iff (h : Exact ReadFrom faults read) {standard : α}
    (hwhole : ∀ name json, given = some (name, json) → json.Whole) (value : α) :
    settle read standard given = .ok value ↔ Setting ReadFrom standard given value := by
  rcases given with _ | ⟨name, json⟩
  · simp [settle, Setting, eq_comm]
  · exact h.accepts (hwhole name json rfl)

theorem Exact.exists_told (h : Exact ReadFrom faults read) (standard : α)
    (hwhole : ∀ name json, given = some (name, json) → json.Whole) :
    ∃ told, Told ReadFrom faults given told ∧
      (((∃ value, settle read standard given = .ok value) ∧ told = []) ∨
        ∃ issues, settle read standard given = .error issues ∧ issues.map Issue.told = told) := by
  rcases given with _ | ⟨name, json⟩
  · exact ⟨[], rfl, Or.inl ⟨⟨standard, rfl⟩, rfl⟩⟩
  have hjson := hwhole name json rfl
  cases hread : read name json with
  | ok value =>
      exact ⟨[], Or.inl ⟨⟨value, (h.accepts hjson).mp hread⟩, rfl⟩, Or.inl ⟨⟨value, hread⟩, rfl⟩⟩
  | error issues =>
      refine ⟨_, Or.inr ⟨fun value hvalue => ?_, rfl⟩,
        Or.inr ⟨issues, hread, h.refuses hjson hread⟩⟩
      rw [← h.accepts hjson, hread] at hvalue
      cases hvalue

end Setting

theorem readStrategy_exact : Exact Strategy.ReadFrom Strategy.faults readStrategy where
  accepts := by
    intro name json strategy hwhole
    constructor
    · intro hread
      cases hwhole with
      | text text =>
          simp only [readStrategy] at hread
          split at hread
          · cases hread
            exact .word (Strategy.ofText?_eq_some_iff.mp ‹_›)
          · cases hread
      | _ => cases hread
    · rintro ⟨htext⟩
      simp only [readStrategy, Strategy.ofText?_eq_some_iff.mpr htext]
  refuses := by
    intro name json issues hwhole hread
    have hnotAmong : issues = [⟨.notAmong (Strategy.all.map Strategy.name), [name]⟩] := by
      cases hwhole with
      | text text =>
          simp only [readStrategy] at hread
          split at hread <;> cases hread
          rfl
      | _ =>
          cases hread
          rfl
    rw [hnotAmong]
    rfl

section Items

variable {items : List Json} {name : Text} {index : Nat}

theorem isSome_text?_iff {item : Json} (hwhole : item.Whole) :
    (text? item).isSome ↔ ∃ text, item = .text text := by
  cases hwhole <;> simp [text?]

theorem itemIssues_eq_nil_iff :
    itemIssues name index items = [] ↔ ∀ item ∈ items, (text? item).isSome := by
  induction items generalizing index with
  | nil => simp [itemIssues]
  | cons item rest ih =>
      cases htext : (text? item).isSome <;> simp [itemIssues, htext, ih]

-- The issues of an array's items are those of the items that are no texts, in order.
theorem itemIssues_told (hwhole : ∀ item ∈ items, item.Whole) :
    (itemIssues name index items).map Issue.told =
      (items.zipIdx index).filterMap fun
        | (.text _, _) => none
        | (_, position) => some ("string_type".toList, [name, Text.ofNat position],
            "Input should be a valid string".toList) := by
  induction items generalizing index with
  | nil => rfl
  | cons item rest ih =>
      obtain ⟨hitem, hrest⟩ := List.forall_mem_cons.mp hwhole
      rw [itemIssues, List.map_append, ih hrest, List.zipIdx_cons, List.filterMap_cons]
      cases hitem <;> rfl

theorem exists_texts (h : ∀ item ∈ items, ∃ text, item = Json.text text) :
    ∃ texts : List Text, items = texts.map .text := by
  induction items with
  | nil => exact ⟨[], rfl⟩
  | cons item rest ih =>
      obtain ⟨⟨text, rfl⟩, hrest⟩ := List.forall_mem_cons.mp h
      obtain ⟨texts, rfl⟩ := ih hrest
      exact ⟨text :: texts, rfl⟩

theorem readItems_texts (name : Text) (texts : List Text) :
    readItems folderName? name (texts.map .text) = .ok (texts.map .text) := by
  have hnone : itemIssues name 0 (texts.map .text) = [] :=
    itemIssues_eq_nil_iff.mpr (by simp [text?])
  have hnames : (texts.map Json.text).filterMap folderName? = texts.map .text := by
    rw [List.filterMap_map, ← List.filterMap_eq_map]
    rfl
  rw [readItems, hnone, hnames]

-- An array without issues is one of texts, and its names are just these.
theorem readItems_eq_ok_iff (hwhole : ∀ item ∈ items, item.Whole) {names : List FolderName} :
    readItems folderName? name items = .ok names ↔
      ∃ texts : List Text, items = texts.map .text ∧ names = texts.map .text := by
  constructor
  · intro hread
    have hnone : itemIssues name 0 items = [] := by
      unfold readItems at hread
      split at hread
      · assumption
      · cases hread
    obtain ⟨texts, rfl⟩ := exists_texts fun item hmem =>
      (isSome_text?_iff (hwhole item hmem)).mp (itemIssues_eq_nil_iff.mp hnone item hmem)
    rw [readItems_texts] at hread
    exact ⟨texts, rfl, (Except.ok.inj hread).symm⟩
  · rintro ⟨texts, rfl, rfl⟩
    exact readItems_texts name texts

end Items

theorem readFolderNames_exact :
    Exact FolderNames.ReadFrom FolderNames.faults readFolderNames where
  accepts := by
    intro name json names hwhole
    constructor
    · intro hread
      cases hwhole with
      | null =>
          cases hread
          exact .null
      | text list =>
          cases hread
          rw [FolderNames.ofText_eq]
          exact .list list
      | array hitems =>
          obtain ⟨texts, rfl, rfl⟩ := (readItems_eq_ok_iff hitems).mp hread
          exact .array texts
      | _ => cases hread
    · rintro (_ | list | texts)
      · rfl
      · rw [readFolderNames, FolderNames.ofText_eq]
      · exact readItems_texts name texts
  refuses := by
    intro name json issues hwhole hread
    cases hwhole with
    | @array items hitems =>
        have hissues : issues = itemIssues name 0 items := by
          simp only [readFolderNames, readItems] at hread
          split at hread
          · cases hread
          · exact (Except.error.inj hread).symm
        rw [hissues, itemIssues_told hitems, FolderNames.faults, List.map_filterMap]
        congr 1
        funext ⟨item, position⟩
        cases item <;> rfl
    | null => cases hread
    | text list => cases hread
    | _ =>
        cases hread
        rfl

theorem given?_eq (members : List (Text × Json)) (name other : Text) :
    given? members [name, other] = Json.memberOf? name other members := by
  cases hfirst : Json.member? name members <;> cases hsecond : Json.member? other members <;>
    simp [given?, Json.memberOf?, hfirst, hsecond]

-- The value given for the strategy, and the one given for the folder names.
def strategyIn : List (Text × Json) → Option (Text × Json) :=
  Json.memberOf? "fileResolutionType".toList "strategy".toList

def foldersIn : List (Text × Json) → Option (Text × Json) :=
  Json.memberOf? "folderNames".toList "folder_names".toList

variable {members other : List (Text × Json)}

theorem strategyOf_eq :
    strategyOf members = settle readStrategy .singleFolder (strategyIn members) := by
  rw [strategyOf, strategyNames, given?_eq, strategyIn]
  cases Json.memberOf? "fileResolutionType".toList "strategy".toList members <;> rfl

theorem folderNamesOf_eq :
    folderNamesOf members = settle readFolderNames [] (foldersIn members) := by
  rw [folderNamesOf, folderNamesNames, given?_eq, foldersIn]
  cases Json.memberOf? "folderNames".toList "folder_names".toList members <;> rfl

theorem ofJson_object_eq_ok_iff {configuration : Configuration} :
    ofJson (.object members) = .ok configuration ↔
      strategyOf members = .ok configuration.strategy ∧
        folderNamesOf members = .ok configuration.folderNames := by
  obtain ⟨strategy, folderNames⟩ := configuration
  cases hstrategy : strategyOf members <;> cases hfolders : folderNamesOf members <;>
    simp [ofJson, hstrategy, hfolders]

-- What an object leaves out is standard.
theorem standard_of_left_out {configuration : Configuration}
    (h : ofJson (.object members) = .ok configuration) :
    (strategyIn members = none → configuration.strategy = .singleFolder) ∧
      (foldersIn members = none → configuration.folderNames = []) := by
  obtain ⟨hstrategy, hfolders⟩ := ofJson_object_eq_ok_iff.mp h
  rw [strategyOf_eq] at hstrategy
  rw [folderNamesOf_eq] at hfolders
  constructor
  · intro hnone
    rw [hnone] at hstrategy
    exact (Except.ok.inj hstrategy).symm
  · intro hnone
    rw [hnone] at hfolders
    exact (Except.ok.inj hfolders).symm

-- Only the two settings count, each under its two names.
theorem ofJson_congr (hstrategy : strategyIn members = strategyIn other)
    (hfolders : foldersIn members = foldersIn other) :
    ofJson (.object members) = ofJson (.object other) := by
  simp only [ofJson, strategyOf_eq, folderNamesOf_eq, hstrategy, hfolders]

section Whole

variable (hwhole : (Json.object members).Whole)

include hwhole

theorem whole_of_strategyIn : ∀ name json, strategyIn members = some (name, json) → json.Whole :=
  fun _ _ => hwhole.of_memberOf?

theorem whole_of_foldersIn : ∀ name json, foldersIn members = some (name, json) → json.Whole :=
  fun _ _ => hwhole.of_memberOf?

theorem ofJson_object_accepted {configuration : Configuration} :
    ofJson (.object members) = .ok configuration ↔
      Setting Strategy.ReadFrom .singleFolder (strategyIn members) configuration.strategy ∧
        Setting FolderNames.ReadFrom [] (foldersIn members) configuration.folderNames := by
  rw [ofJson_object_eq_ok_iff, strategyOf_eq, folderNamesOf_eq,
    readStrategy_exact.settle_eq_ok_iff (whole_of_strategyIn hwhole),
    readFolderNames_exact.settle_eq_ok_iff (whole_of_foldersIn hwhole)]

-- An object is refused with what is to tell of the strategy, and then of the folder names.
theorem ofJson_object_refused
    (hrefused : ∀ configuration, ofJson (.object members) ≠ .ok configuration) :
    ∃ issues ofStrategy ofFolders, ofJson (.object members) = .error ⟨kind, issues⟩ ∧
      issues.map Issue.told = ofStrategy ++ ofFolders ∧
      Told Strategy.ReadFrom Strategy.faults (strategyIn members) ofStrategy ∧
      Told FolderNames.ReadFrom FolderNames.faults (foldersIn members) ofFolders := by
  obtain ⟨ofStrategy, htoldStrategy, hstrategy⟩ := readStrategy_exact.exists_told
    .singleFolder (whole_of_strategyIn hwhole)
  obtain ⟨ofFolders, htoldFolders, hfolders⟩ := readFolderNames_exact.exists_told
    [] (whole_of_foldersIn hwhole)
  rw [← strategyOf_eq] at hstrategy
  rw [← folderNamesOf_eq] at hfolders
  rcases hstrategy with ⟨⟨strategy, hstrategy⟩, rfl⟩ | ⟨issues, hstrategy, rfl⟩
  · rcases hfolders with ⟨⟨names, hfolders⟩, rfl⟩ | ⟨more, hfolders, rfl⟩
    · exact absurd (ofJson_object_eq_ok_iff.mpr ⟨hstrategy, hfolders⟩) (hrefused ⟨strategy, names⟩)
    · refine ⟨more, [], _, ?_, rfl, htoldStrategy, htoldFolders⟩
      simp only [ofJson, hstrategy, hfolders]
  · rcases hfolders with ⟨⟨names, hfolders⟩, rfl⟩ | ⟨more, hfolders, rfl⟩
    · refine ⟨issues, _, [], ?_, (List.append_nil _).symm, htoldStrategy, htoldFolders⟩
      simp only [ofJson, hstrategy, hfolders]
    · refine ⟨issues ++ more, _, _, ?_, List.map_append, htoldStrategy, htoldFolders⟩
      simp only [ofJson, hstrategy, hfolders]

end Whole

-- The format of a configuration. A value is accepted exactly if it is an object in which each
-- setting is left out or has a value that can be read, and is read as just that. Of an object that
-- is refused all the faults are told, those of the strategy first. Other members do not matter, nor
-- does the order.
theorem ofJson_exact {json : Json} (hwhole : json.Whole) :
    let strategyIn := Json.memberOf? "fileResolutionType".toList "strategy".toList
    let foldersIn := Json.memberOf? "folderNames".toList "folder_names".toList
    (∀ configuration, ofJson json = .ok configuration ↔ ∃ members, json = .object members ∧
      Setting Strategy.ReadFrom .singleFolder (strategyIn members) configuration.strategy ∧
      Setting FolderNames.ReadFrom [] (foldersIn members) configuration.folderNames) ∧
    (∀ members, json = .object members →
      (∀ configuration, ofJson json ≠ .ok configuration) →
        ∃ issues ofStrategy ofFolders,
          ofJson json = .error ⟨"ResolutionConfiguration".toList, issues⟩ ∧
          issues.map Issue.told = ofStrategy ++ ofFolders ∧
          Told Strategy.ReadFrom Strategy.faults (strategyIn members) ofStrategy ∧
          Told FolderNames.ReadFrom FolderNames.faults (foldersIn members) ofFolders) ∧
    (∀ members other, json = .object members →
      (∀ name ∈ ["fileResolutionType", "strategy", "folderNames", "folder_names"],
        Json.member? name.toList members = Json.member? name.toList other) →
          ofJson (.object other) = ofJson json) ∧
    ∀ members other, json = .object members → (members.map Prod.fst).Nodup →
      members.Perm other → ofJson (.object other) = ofJson json := by
  intro strategyIn foldersIn
  refine ⟨fun configuration => ⟨fun h => ?_, ?_⟩, ?_, ?_, ?_⟩
  · cases hwhole with
    | object hmembers => exact ⟨_, rfl, (ofJson_object_accepted (.object hmembers)).mp h⟩
    | _ => cases h
  · rintro ⟨members, rfl, hsettings⟩
    exact (ofJson_object_accepted hwhole).mpr hsettings
  · rintro members rfl hrefused
    exact ofJson_object_refused hwhole hrefused
  · rintro members other rfl hsame
    simp only [List.forall_mem_cons] at hsame
    obtain ⟨hresolution, hstrategy, hfolderNames, hfolders, -⟩ := hsame
    apply ofJson_congr
    · simp only [Configuration.strategyIn, Json.memberOf?, hresolution, hstrategy]
    · simp only [Configuration.foldersIn, Json.memberOf?, hfolderNames, hfolders]
  · rintro members other rfl hnodup hperm
    have hsame (name : Text) : Json.member? name members = Json.member? name other :=
      Json.member?_perm hnodup hperm
    apply ofJson_congr
    · simp only [Configuration.strategyIn, Json.memberOf?, hsame]
    · simp only [Configuration.foldersIn, Json.memberOf?, hsame]

-- An object in which each setting has two values, and one with faults in both.
private def twice : List (Text × Json) :=
  [("strategy".toList, .null), ("folder_names".toList, .bool true),
    ("folderNames".toList, .array [.text " src ".toList, .text "".toList]),
    ("fileResolutionType".toList, .text "\x1f Multi_Folder\n".toList), ("more".toList, .null)]

private def faulty : List (Text × Json) :=
  [("folder_names".toList, .array [.null, .text "src".toList, .array []]),
    ("strategy".toList, .text "everywhere".toList)]

theorem ofJson_of_two_spellings :
    (Json.object twice).Whole ∧ (Json.object faulty).Whole ∧
    ofJson (.object twice) = .ok ⟨.multiFolder, [.text " src ".toList, .text []]⟩ ∧
    (twice.map Prod.fst).Nodup ∧ twice.Perm twice.reverse ∧
    ofJson (.object twice.reverse) = ofJson (.object twice) ∧
    ∃ issues, ofJson (.object faulty) = .error ⟨"ResolutionConfiguration".toList, issues⟩ ∧
      issues.map Issue.told = [
        ("enum".toList, ["strategy".toList],
          "Input should be 'SINGLE_FOLDER' or 'MULTI_FOLDER'".toList),
        ("string_type".toList, ["folder_names".toList, "0".toList],
          "Input should be a valid string".toList),
        ("string_type".toList, ["folder_names".toList, "2".toList],
          "Input should be a valid string".toList)] := by
  have htwice : (Json.object twice).Whole := by
    simp [twice, Json.whole_object_iff, Json.whole_array_iff, Json.Whole.null, Json.Whole.bool,
      Json.Whole.text]
  have hfaulty : (Json.object faulty).Whole := by
    simp [faulty, Json.whole_object_iff, Json.whole_array_iff, Json.Whole.null, Json.Whole.text]
  have hnodup : (twice.map Prod.fst).Nodup := by decide +kernel
  have hperm : twice.Perm twice.reverse := (List.reverse_perm twice).symm
  obtain ⟨haccepted, -, -, horder⟩ := ofJson_exact htwice
  obtain ⟨hread, htold, -, -⟩ := ofJson_exact hfaulty
  refine ⟨htwice, hfaulty, ?_, hnodup, hperm, horder twice _ rfl hnodup hperm, ?_⟩
  · refine (haccepted _).mpr ⟨twice, rfl, ?_, ?_⟩
    · exact .word (by decide +kernel)
    · exact FolderNames.ReadFrom.array [" src ".toList, []]
  · have hstrategy : ∀ strategy, ¬Strategy.ReadFrom (.text "everywhere".toList) strategy := by
      rintro strategy ⟨hword⟩
      cases strategy <;> revert hword <;> decide +kernel
    have hfolders : ∀ names,
        ¬FolderNames.ReadFrom (.array [.null, .text "src".toList, .array []]) names := by
      intro names hnames
      generalize hitems : Json.array _ = json at hnames
      cases hnames with
      | array texts => cases texts <;> cases hitems
      | _ => cases hitems
    have hrefused : ∀ configuration, ofJson (.object faulty) ≠ .ok configuration := by
      intro configuration hok
      obtain ⟨members, hmembers, hword, -⟩ := (hread configuration).mp hok
      cases hmembers
      exact hstrategy _ hword
    obtain ⟨issues, ofStrategy, ofFolders, herror, hissues, htoldStrategy, htoldFolders⟩ :=
      htold faulty rfl hrefused
    refine ⟨issues, herror, ?_⟩
    rcases htoldStrategy with ⟨⟨strategy, hword⟩, -⟩ | ⟨-, rfl⟩
    · exact absurd hword (hstrategy strategy)
    rcases htoldFolders with ⟨⟨names, hnames⟩, -⟩ | ⟨-, rfl⟩
    · exact absurd hnames (hfolders names)
    · rw [hissues]
      decide +kernel

end Configuration

end WorkspaceImports

import WorkspaceImports.Json.Basic
import WorkspaceImports.Text.Wording
import WorkspaceImports.Validation

namespace WorkspaceImports

-- Where the target of an import is looked for: in the importing file's own source folder, or
-- in each of several folders in its place.
inductive Strategy
  | singleFolder
  | multiFolder
deriving DecidableEq, Repr

namespace Strategy

def name : Strategy → Text
  | singleFolder => "SINGLE_FOLDER".toList
  | multiFolder => "MULTI_FOLDER".toList

def all : List Strategy := [singleFolder, multiFolder]

def ofName? (name : Text) : Option Strategy := all.find? (·.name = name)

-- A strategy as people write it, in any case and with blanks around it.
def ofText? (text : Text) : Option Strategy := ofName? (Text.upper (Text.trim text))

end Strategy

-- The name of a folder to look in, taken as it is written.
abbrev FolderName := Wording

abbrev FolderName.shown : FolderName → Text := Wording.shown

namespace FolderNames

-- The pieces of a list with commas, without the blanks around them and without empty ones.
def pieces {α : Type} [BEq α] (comma : α) (isBlank : α → Bool) (list : List α) : List (List α) :=
  ((list.splitOn comma).map (Text.trimBy isBlank)).filter (!·.isEmpty)

def ofText (list : Text) : List Text := pieces ',' Text.isBlank list

def ofLetters (list : List Letter) : List FolderName := pieces (.char ',') Letter.isBlank list

def toText (names : List Text) : Text := Text.join ',' names

end FolderNames

-- How the imports of a project's files are resolved. The folder names count for the strategy
-- with several folders.
structure Configuration where
  strategy : Strategy
  folderNames : List FolderName
deriving DecidableEq, Repr

namespace Configuration

def standard : Configuration := ⟨.singleFolder, []⟩

def given? (members : List (Text × Json)) (names : List Text) : Option (Text × Json) :=
  names.findSome? fun name => (Json.member? name members).map (name, ·)

-- The members that give the strategy and the folder names, each under two names. The first
-- name wins.
def strategyNames : List Text := ["fileResolutionType".toList, "strategy".toList]

def folderNamesNames : List Text := ["folderNames".toList, "folder_names".toList]

def readStrategy (name : Text) : Json → Except (List Issue) Strategy
  | .text text =>
      match Strategy.ofText? text with
      | some strategy => .ok strategy
      | none => .error [⟨.notAmong (Strategy.all.map Strategy.name), [name]⟩]
  | .brokenText _ => .error [⟨.brokenText, [name]⟩]
  | _ => .error [⟨.notAmong (Strategy.all.map Strategy.name), [name]⟩]

def text? : Json → Option Text
  | .text text => some text
  | .brokenText letters => some (letters.map Letter.lenient)
  | _ => none

def folderName? : Json → Option FolderName
  | .text name => some (.text name)
  | .brokenText letters => some letters
  | _ => none

-- The complaints about the items of a list that should be texts. `index` is the position of
-- the first of them.
def itemIssues (name : Text) (index : Nat) : List Json → List Issue
  | [] => []
  | item :: rest =>
      (if (text? item).isSome then [] else [⟨.notAText, [name, Text.ofNat index]⟩])
        ++ itemIssues name (index + 1) rest

def readItems {α : Type} (read : Json → Option α) (name : Text) (items : List Json) :
    Except (List Issue) (List α) :=
  match itemIssues name 0 items with
  | [] => .ok (items.filterMap read)
  | issues => .error issues

-- A list of names is taken as it is. One text is a list with commas.
def readFolderNames (name : Text) : Json → Except (List Issue) (List FolderName)
  | .null => .ok []
  | .text list => .ok ((FolderNames.ofText list).map .text)
  | .brokenText list => .ok (FolderNames.ofLetters list)
  | .array items => readItems folderName? name items
  | _ => .error [⟨.notAList, [name]⟩]

def kind : Text := "ResolutionConfiguration".toList

def strategyOf (members : List (Text × Json)) : Except (List Issue) Strategy :=
  match given? members strategyNames with
  | none => .ok standard.strategy
  | some (name, value) => readStrategy name value

def folderNamesOf (members : List (Text × Json)) : Except (List Issue) (List FolderName) :=
  match given? members folderNamesNames with
  | none => .ok standard.folderNames
  | some (name, value) => readFolderNames name value

-- The configuration that a value describes. Members with other names do not matter.
def ofJson : Json → Except Invalid Configuration
  | .object members =>
      match strategyOf members, folderNamesOf members with
      | .ok strategy, .ok folderNames => .ok ⟨strategy, folderNames⟩
      | .ok _, .error issues => .error ⟨kind, issues⟩
      | .error issues, .ok _ => .error ⟨kind, issues⟩
      | .error issues, .error more => .error ⟨kind, issues ++ more⟩
  | _ => .error ⟨kind, [⟨.noObject kind, []⟩]⟩

end Configuration

end WorkspaceImports

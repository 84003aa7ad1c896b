import WorkspaceImports.Configuration
import WorkspaceImports.Existence

namespace WorkspaceImports

def innerSegments (segments : List Text) : List Text :=
  if segments.length < 2 then [] else segments.tail.dropLast

namespace Import

-- An import that names its target by a scheme is no business of the resolution.
def isAbsolute (written : Wording) : Bool :=
  (Wording.text Scheme.file.opening).isPrefixOf written
    || (Wording.text Scheme.workspace.opening).isPrefixOf written

-- The URI of an import as seen from a folder. The import's own path takes over at the first
-- of the folder's segments that equals the import's first one.
def candidate (written : Wording) (first : Option Wording) (folder : List Wording) : Wording :=
  .text Scheme.workspace.opening ++ (folder.takeWhile (some · ≠ first)).flatMap (.char '/' :: ·)
    ++ .char '/' :: written

def attempt (disk : Disk) (check : Check) (written : Wording) (first : Option Wording)
    (folder : List Wording) : Inquiry (Option Wording) :=
  let wording := candidate written first folder
  (wording.isThere disk check).map fun found => if found then some wording else none

-- The position of the source folder in an owner's inner segments, after the project.
def sourceFolder : Nat := 1

-- The first candidate that is there, with each of several folders in the place of the source
-- folder. An owner without a source folder has no candidates.
def tryFolders (disk : Disk) (check : Check) (written : Wording) (first : Option Wording)
    (base : List Wording) : List FolderName → Inquiry (Option Wording)
  | [] => .pure none
  | folder :: rest =>
      if base.length ≤ sourceFolder then
        (tryFolders disk check written first base rest).logging (.folderSkipped folder base)
      else
        (attempt disk check written first (base.set sourceFolder folder)).andThen fun
          | some found => .pure (some found)
          | none => tryFolders disk check written first base rest

def resolve (disk : Disk) (check : Check) (configuration : Configuration) (owner : Uri)
    (written : Wording) : Inquiry (Option Wording) :=
  if isAbsolute written then .pure (some written)
  else
    let first := (Text.segments (.char '/') written).head?
    let base := (innerSegments owner.segments).map .text
    match configuration.strategy with
    | .singleFolder => attempt disk check written first base
    | .multiFolder => tryFolders disk check written first base configuration.folderNames

-- What an import is replaced by: the URI it is resolved to, or itself.
def fix (disk : Disk) (check : Check) (configuration : Configuration) (owner : Uri)
    (written : Wording) : Inquiry Wording :=
  let found := resolve disk check configuration owner written
  ⟨found.value.getD written, found.asked,
    found.log ++ [.importFixed owner.text written found.value]⟩

def candidates (configuration : Configuration) (owner : Uri) (written : Wording) :
    List Wording :=
  let first := (Text.segments (.char '/') written).head?
  let base := (innerSegments owner.segments).map .text
  match configuration.strategy with
  | .singleFolder => [candidate written first base]
  | .multiFolder =>
      if base.length ≤ sourceFolder then []
      else configuration.folderNames.map fun folder =>
        candidate written first (base.set sourceFolder folder)

end Import

end WorkspaceImports

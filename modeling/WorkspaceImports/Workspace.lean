import WorkspaceImports.Disk.Resolve
import WorkspaceImports.Existence

namespace WorkspaceImports

-- A folder with a project in each of its folders. The root is resolved.
structure Workspace where
  root : Path
deriving DecidableEq, Repr

namespace Workspace

def ofRoot (disk : Disk) (root : Path) : Except Disk.Failure Workspace :=
  (disk.resolve root).map Workspace.mk

-- What a URI means in a workspace: nothing, a place outside, or a place at the root or below.
inductive Target
  | unmapped
  | outside
  | inside (path : Path)
deriving DecidableEq, Repr

-- Where a path leads, as seen from the root.
def leadsTo (workspace : Workspace) (disk : Disk) (path : Path) : Except Disk.Failure Target :=
  match disk.resolve path with
  | .error failure => .error failure
  | .ok path => .ok (if (workspace.root.below? path).isSome then .inside path else .outside)

-- The path of a resource before it is resolved. Each segment after the word "resource" is
-- decoded and seen from the ones before it.
def pathOf (workspace : Workspace) (segments : List Text) : Path :=
  segments.foldl (fun path segment => path.join (Path.ofText (Percent.decode segment)))
    workspace.root

def target (workspace : Workspace) (disk : Disk) (uri : Uri) : Except Disk.Failure Target :=
  match uri.scheme, uri.segments with
  | .workspace, _ :: part :: parts => workspace.leadsTo disk (workspace.pathOf (part :: parts))
  | _, _ => .ok .unmapped

-- The file that a URI means, if it is not outside.
def inside? (workspace : Workspace) (wording : Wording) :
    Except Disk.Failure Target → Logged (Except Disk.Failure (Option Path))
  | .error failure => ⟨.error failure, []⟩
  | .ok .unmapped => ⟨.ok none, []⟩
  | .ok .outside => ⟨.ok none, [.outsideWorkspace wording workspace.root]⟩
  | .ok (.inside path) => ⟨.ok (some path), []⟩

def file? (workspace : Workspace) (disk : Disk) (uri : Uri) :
    Logged (Except Disk.Failure (Option Path)) :=
  workspace.inside? uri.text (workspace.target disk uri)

-- Whether a path that may have been found leads to a file.
def holdsAt (disk : Disk) :
    Logged (Except Disk.Failure (Option Path)) → Logged (Except Disk.Failure Bool)
  | ⟨.error failure, log⟩ => ⟨.error failure, log⟩
  | ⟨.ok none, log⟩ => ⟨.ok false, log⟩
  | ⟨.ok (some path), log⟩ => ⟨disk.isFile? path, log⟩

def holds (workspace : Workspace) (disk : Disk) (uri : Uri) : Logged (Except Disk.Failure Bool) :=
  holdsAt disk (workspace.file? disk uri)

section Wordings

-- The same for the wording of a URI, which need not be a text.

def pathOfWordings (workspace : Workspace) (segments : List Wording) : Path :=
  segments.foldl (fun path segment => path.join (Path.ofWording (Percent.decodeWording segment)))
    workspace.root

def targetOf (workspace : Workspace) (disk : Disk) (wording : Wording) :
    Except Disk.Failure Target :=
  match wording.scheme, wording.segments with
  | .workspace, _ :: part :: parts =>
      workspace.leadsTo disk (workspace.pathOfWordings (part :: parts))
  | _, _ => .ok .unmapped

def holdsWording (workspace : Workspace) (disk : Disk) (wording : Wording) :
    Logged (Except Disk.Failure Bool) :=
  holdsAt disk (workspace.inside? wording (workspace.targetOf disk wording))

end Wordings

def check (workspace : Workspace) (disk : Disk) : Check := fun wording =>
  match workspace.holdsWording disk wording with
  | ⟨.ok found, log⟩ => ⟨.value (.bool found), log⟩
  | ⟨.error failure, log⟩ => ⟨.failure failure.message, log⟩

-- The workspace URI of what a path leads to, if that is below the root.
def uri? (workspace : Workspace) (disk : Disk) (path : Path) : Except Disk.Failure (Option Text) :=
  match disk.resolve path with
  | .error failure => .error failure
  | .ok path =>
      match workspace.root.below? path with
      | some (name :: names) =>
          .ok (some (Scheme.workspace.opening ++ '/' :: Text.join '/' (name :: names)))
      | _ => .ok none

end Workspace

end WorkspaceImports

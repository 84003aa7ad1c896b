import WorkspaceImports.Text.Basic

namespace WorkspaceImports

-- The names on the way from the root to a place on the disk.
abbrev Location := List Text

inductive Node
  | file (content : List UInt8)
  | link (target : Text)
  | folder (entries : List (Text × Node))

-- What is seen at a place. A folder's content is seen at the places below it.
inductive Entry
  | file (content : List UInt8)
  | link (target : Text)
  | folder
deriving DecidableEq, Repr

namespace Node

def entry : Node → Entry
  | .file content => .file content
  | .link target => .link target
  | .folder _ => .folder

def at? (node : Node) : Location → Option Node
  | [] => some node
  | name :: rest =>
      match node with
      | .folder entries => (entries.lookup name).bind (·.at? rest)
      | _ => none

end Node

-- A tree of files below one root, and the working folder in which relative paths start. There are
-- no permissions: every folder can be entered and every file can be read.
structure Disk where
  entries : List (Text × Node)
  here : Location

namespace Disk

def root (disk : Disk) : Node := .folder disk.entries

def at? (disk : Disk) (place : Location) : Option Entry :=
  (disk.root.at? place).map Node.entry

def isFolder (disk : Disk) (place : Location) : Bool :=
  disk.at? place == some .folder

def link? (disk : Disk) (place : Location) : Option Text :=
  match disk.at? place with
  | some (.link target) => some target
  | _ => none

end Disk

end WorkspaceImports

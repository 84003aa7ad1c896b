import WorkspaceImports.Disk.Find

namespace WorkspaceImports

-- The entries with one of them set, in its old position if it had one.
def setEntry (name : Text) (node : Node) : List (Text × Node) → List (Text × Node)
  | [] => [(name, node)]
  | (other, old) :: rest =>
      if other = name then (name, node) :: rest else (other, old) :: setEntry name node rest

namespace Node

-- The tree with a node set at a place. Missing folders on the way are made; nothing is set
-- below a file or a link.
def insert (new : Node) : Location → Node → Node
  | [], _ => new
  | name :: rest, .folder entries =>
      let old := (entries.lookup name).getD (.folder [])
      .folder (setEntry name (insert new rest old) entries)
  | _ :: _, node => node

def erase : Location → Node → Node
  | [], node => node
  | [name], .folder entries => .folder (entries.filter (·.1 ≠ name))
  | name :: rest, .folder entries =>
      match entries.lookup name with
      | none => .folder entries
      | some child => .folder (setEntry name (erase rest child) entries)
  | _ :: _, node => node

end Node

namespace Disk

def withRoot (disk : Disk) : Node → Disk
  | .folder entries => { disk with entries }
  | _ => disk

def insert (disk : Disk) (place : Location) (node : Node) : Disk :=
  disk.withRoot (Node.insert node place disk.root)

def erase (disk : Disk) (place : Location) : Disk :=
  disk.withRoot (Node.erase place disk.root)

-- The disk with a folder at the end of a path, and with the missing ones before it.
def makeFolder (disk : Disk) (path : Path) : Disk :=
  (List.range (path.names.length + 1)).foldl
    (fun disk count =>
      match disk.locate ⟨path.anchor, path.names.take count⟩ with
      | .error (.absent place) => disk.insert place (.folder [])
      | _ => disk)
    disk

def parentOf (path : Path) : Path := { path with names := path.names.dropLast }

-- The disk with a file written. Links in the path are followed, the last name included.
def writeFile (disk : Disk) (path : Path) (content : List UInt8) : Disk :=
  let disk := disk.makeFolder (parentOf path)
  match disk.locate path with
  | .ok place => if disk.isFolder place then disk else disk.insert place (.file content)
  | .error (.absent place) => disk.insert place (.file content)
  | .error (.refused _) => disk

-- The place of a path's last name itself, be it a link or not.
def placeOf (disk : Disk) (path : Path) : Option Location :=
  match path.names.getLast?, disk.locate (parentOf path) with
  | some name, .ok folder => some (folder ++ [name])
  | _, _ => none

-- The disk with a new link. Where something stands already, nothing changes.
def makeLink (disk : Disk) (path : Path) (target : Text) : Disk :=
  let disk := disk.makeFolder (parentOf path)
  match disk.placeOf path with
  | some place => if (disk.at? place).isSome then disk else disk.insert place (.link target)
  | none => disk

def remove (disk : Disk) (path : Path) : Disk :=
  match disk.placeOf path with
  | some place => disk.erase place
  | none => disk

end Disk

end WorkspaceImports

import WorkspaceImports.Disk.Basic
import WorkspaceImports.Disk.Error
import WorkspaceImports.Text.Utf8

namespace WorkspaceImports.Disk

-- The greatest number of bytes in one name.
def nameLimit : Nat := 255

-- The number of bytes from which on a whole path is refused.
def pathLimit : Nat := 4096

-- The number of links that the way to one file may pass.
def linkLimit : Nat := 40

-- Why a way on the disk ends early. `absent` tells the place where nothing stands, when
-- only the last name is missing.
inductive Obstacle
  | absent (place : Location)
  | refused (refusal : Refusal)
deriving DecidableEq, Repr

def Obstacle.refusal : Obstacle → Refusal
  | .absent _ => .notFound
  | .refused refusal => refusal

-- The place that the pieces of a path lead to. Every piece, also an empty one and a dot,
-- asks for a folder to start from, and two dots go to the folder that really holds it.
-- `follow` takes over at a link, with its target and the pieces after it.
def go (disk : Disk) (follow : Location → Text → List Text → Except Obstacle Location) :
    Location → List Text → Except Obstacle Location
  | place, [] => .ok place
  | place, piece :: rest =>
      if !disk.isFolder place then .error (.refused .notAFolder)
      else if piece = [] ∨ piece = ['.'] then go disk follow place rest
      else if piece = ['.', '.'] then go disk follow place.dropLast rest
      else if nameLimit < Utf8.size piece then .error (.refused .nameTooLong)
      else
        match disk.at? (place ++ [piece]) with
        | none => .error (if rest = [] then .absent (place ++ [piece]) else .refused .notFound)
        | some (.link target) => follow place target rest
        | some _ => go disk follow (place ++ [piece]) rest

def linkStart (place : Location) (target : Text) : Location :=
  if Path.anchorOf target = .here then place else []

def travel (disk : Disk) : Nat → Location → List Text → Except Obstacle Location
  | 0 => go disk fun _ _ _ => .error (.refused .linkLoop)
  | budget + 1 => go disk fun place target rest =>
      travel disk budget (linkStart place target) (target.splitOn '/' ++ rest)

def start (disk : Disk) (path : Path) : Location :=
  if path.anchor = .here then disk.here else []

def locate (disk : Disk) (path : Path) : Except Obstacle Location :=
  if pathLimit ≤ Utf8.size path.text then .error (.refused .nameTooLong)
  else travel disk linkLimit (disk.start path) path.names

def find (disk : Disk) (path : Path) : Except Refusal Entry :=
  match disk.locate path with
  | .error obstacle => .error obstacle.refusal
  | .ok place =>
      match disk.at? place with
      | none => .error .notFound
      | some entry => .ok entry

-- Whether what a path names has a property. What is not found, lies below a file or lies
-- on a circle of links has none; only a name that is too long gives no answer.
def test (disk : Disk) (holds : Entry → Bool) (path : Path) : Except Failure Bool :=
  if path.hasNull then .ok false
  else
    match disk.find path with
    | .ok entry => .ok (holds entry)
    | .error .nameTooLong => .error (.refused .nameTooLong path)
    | .error _ => .ok false

def exists? (disk : Disk) (path : Path) : Except Failure Bool :=
  disk.test (fun _ => true) path

def isFile? (disk : Disk) (path : Path) : Except Failure Bool :=
  disk.test (fun | .file _ => true | _ => false) path

def read (disk : Disk) (path : Path) : Except Failure (List UInt8) :=
  if path.hasNull then .error .nullCharacter
  else
    match disk.find path with
    | .ok (.file content) => .ok content
    | .ok _ => .error (.refused .isAFolder path)
    | .error refusal => .error (.refused refusal path)

end WorkspaceImports.Disk

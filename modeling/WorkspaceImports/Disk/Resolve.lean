import WorkspaceImports.Disk.Find

namespace WorkspaceImports.Disk

-- Where a way starts: at the root, or so many folders above the working folder.
inductive Origin
  | root
  | above (count : Nat)
deriving DecidableEq, Repr

-- The way of a resolution so far, on which no link is left. It is spelled from the working
-- folder until a link leads to the root.
structure Way where
  origin : Origin
  names : List Text
deriving DecidableEq, Repr

namespace Way

def parent (way : Way) : Way :=
  match way.origin, way.names with
  | .root, [] => way
  | .above count, [] => ⟨.above (count + 1), []⟩
  | origin, names => ⟨origin, names.dropLast⟩

def child (way : Way) (name : Text) : Way := { way with names := way.names ++ [name] }

-- The way as it is spelled, with two dots for each folder above the working one.
def path (way : Way) : Path :=
  match way.origin with
  | .root => ⟨.root, way.names⟩
  | .above count => ⟨.here, List.replicate count ['.', '.'] ++ way.names⟩

def place (way : Way) (disk : Disk) : Location :=
  match way.origin with
  | .root => way.names
  | .above count => disk.here.take (disk.here.length - count) ++ way.names

def entering (folder : Way) (target : Text) : Way :=
  if Path.anchorOf target = .here then folder else ⟨.root, []⟩

-- The target of the link that a way leads to. Where its spelling is too long for the system,
-- no link is seen.
def link? (way : Way) (disk : Disk) : Option Text :=
  (disk.link? (way.place disk)).filter fun _ => Utf8.size way.path.text < pathLimit

end Way

-- The links met so far, the latest first, each with the way it leads to or with none while it
-- is being followed. A link that is met on another way counts as another one.
abbrev Met := List (Way × Option Way)

-- The end of a resolution: a way to the end, a path whose rest is left as it is spelled,
-- because a link was met while it was being followed, or a failure.
inductive Outcome
  | arrived (met : Met) (way : Way)
  | circled (path : Path)
  | failed (failure : Failure)
deriving DecidableEq, Repr

-- Goes on along the pieces of a path. What does not exist is passed like a folder, and two
-- dots take the last name back, which is no link. `enter` follows a link's target.
def advance (disk : Disk) (enter : Met → Way → Text → Outcome) :
    Met → Way → List Text → Outcome
  | met, way, [] => .arrived met way
  | met, way, piece :: rest =>
      if piece = [] ∨ piece = ['.'] then advance disk enter met way rest
      else if piece = ['.', '.'] then advance disk enter met way.parent rest
      else if piece.contains '\x00' then .failed .nullCharacter
      else
        let unresolved := Path.ofPieces rest
        match (way.child piece).link? disk with
        | none => advance disk enter met (way.child piece) rest
        | some target =>
            match met.lookup (way.child piece) with
            | some (some known) => advance disk enter met known rest
            | some none => .circled ((way.child piece).path.join unresolved)
            | none =>
                match enter ((way.child piece, none) :: met) way target with
                | .arrived met reached =>
                    advance disk enter ((way.child piece, some reached) :: met) reached rest
                | .circled path => .circled (path.join unresolved)
                | .failed failure => .failed failure

-- The number of links that may be followed within each other. Neither the links nor the system set
-- it: it is what the interpreter's bound on nested calls leaves to a resolution that starts at one
-- certain depth, and from a deeper start it is less.
def depthLimit : Nat := 970

def unwind (disk : Disk) : Nat → Met → Way → List Text → Outcome
  | 0 => advance disk fun _ _ _ => .failed .tooDeep
  | depth + 1 => advance disk fun met folder target =>
      unwind disk depth met (folder.entering target) (target.splitOn '/')

def resolution (disk : Disk) (path : Path) : Outcome :=
  unwind disk depthLimit [] ⟨if path.anchor = .here then .above 0 else .root, []⟩ path.names

-- The path from the root that a path is by its spelling alone.
def absolute (disk : Disk) (path : Path) : Path :=
  match path.anchor with
  | .here => (Path.join ⟨.root, disk.here⟩ path).normalize
  | _ => path.normalize

-- A path that was resolved, unless the way to it still leads in a circle.
def settle (disk : Disk) (path : Path) : Except Failure Path :=
  if path.hasNull then .error .nullCharacter
  else
    match disk.find path with
    | .error .linkLoop => .error (.circle path)
    | _ => .ok path

-- The path with a root and without links or dots that leads to the same place. It may lead
-- to nothing. After a circle the rest of the path is normalized by its spelling, so a link
-- may stand in it.
def resolve (disk : Disk) (path : Path) : Except Failure Path :=
  match disk.resolution path with
  | .arrived _ way => disk.settle ⟨.root, way.place disk⟩
  | .circled path => disk.settle (disk.absolute path)
  | .failed failure => .error failure

end WorkspaceImports.Disk

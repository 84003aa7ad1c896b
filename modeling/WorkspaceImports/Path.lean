import WorkspaceImports.Text.Utf8
import WorkspaceImports.Text.Wording

namespace WorkspaceImports

-- Where a path starts: in the working folder, at the root, or at the root written with
-- exactly two slashes, which stays a spelling of its own.
inductive Anchor
  | here
  | root
  | doubleRoot
deriving DecidableEq, Repr

-- A path after its spelling is cleaned: no name is empty or a single dot. Two dots are kept, since
-- what they mean is a matter of the disk. A name with a slash is one that no disk has.
structure Path where
  anchor : Anchor
  names : List Text
deriving DecidableEq, Repr

-- The bytes that the system is asked with: UTF-8, and the byte above ASCII that a half may stand
-- for. Any other half has none.
def Letter.bytes? : Letter → Option (List UInt8)
  | char c => some (Utf8.encodeChar c)
  | half code => if 0xDC80 ≤ code ∧ code < 0xDD00 then some [.ofNat (code - 0xDC00)] else none

namespace Wording

def bytes? : Wording → Option (List UInt8)
  | [] => some []
  | letter :: rest => letter.bytes?.bind fun bytes => (bytes? rest).map (bytes ++ ·)

-- The name that a wording is on a disk, where names are texts. Bytes that are no text are no name
-- there, and just as many slashes stand for them. A wording without bytes is refused like the null
-- character, also in what is told of it.
def name (wording : Wording) : Text :=
  match wording.bytes? with
  | none => ['\x00']
  | some bytes =>
      match Utf8.decode bytes with
      | .ok text => text
      | .error _ => bytes.map fun byte => if byte = 0 then '\x00' else '/'

end Wording

namespace Path

def anchorOf : Text → Anchor
  | '/' :: '/' :: '/' :: _ => .root
  | '/' :: '/' :: _ => .doubleRoot
  | '/' :: _ => .root
  | _ => .here

def ofText (text : Text) : Path :=
  ⟨anchorOf text, (Text.segments '/' text).filter (· ≠ ['.'])⟩

-- Where a path starts of which the pieces between the slashes are given. Empty ones at the start
-- stand for slashes.
def anchorOfPieces : List Text → Anchor
  | [] :: [] :: [] :: _ :: _ => .root
  | [] :: [] :: _ :: _ => .doubleRoot
  | [] :: _ :: _ => .root
  | _ => .here

def ofPieces (pieces : List Text) : Path :=
  ⟨anchorOfPieces pieces, (pieces.filter (!·.isEmpty)).filter (· ≠ ['.'])⟩

def ofWording (wording : Wording) : Path :=
  ⟨anchorOf wording.shown,
    ((Text.segments (.char '/') wording).filter (· ≠ [.char '.'])).map Wording.name⟩

-- The second path as seen from the first. A path with a root is the same from everywhere.
def join (path next : Path) : Path :=
  match next.anchor with
  | .here => ⟨path.anchor, path.names ++ next.names⟩
  | _ => next

def text (path : Path) : Text :=
  match path.anchor, path.names with
  | .here, [] => ['.']
  | .here, names => Text.join '/' names
  | .root, names => '/' :: Text.join '/' names
  | .doubleRoot, names => '/' :: '/' :: Text.join '/' names

-- The names after those of the folder, if the path is the folder or lies below it.
def below? (folder path : Path) : Option (List Text) :=
  if folder.anchor = path.anchor ∧ folder.names <+: path.names then
    some (path.names.drop folder.names.length)
  else none

-- The null character ends every text that is handed to the system, so no name holds it.
def hasNull (path : Path) : Bool := path.names.any (·.contains '\x00')

-- Each name after those before it, where two dots take the last one back.
def collapse (before : List Text) : List Text → List Text
  | [] => before
  | name :: rest =>
      if name = ['.', '.'] then collapse before.dropLast rest
      else collapse (before ++ [name]) rest

-- The path with every two dots taken by their spelling alone. Nothing is above a root.
def normalize (path : Path) : Path := ⟨path.anchor, collapse [] path.names⟩

end Path

end WorkspaceImports

import WorkspaceImports.Path
import WorkspaceImports.Text.Quoted

namespace WorkspaceImports.Disk

-- What a path can be refused for on a disk without permissions. A system that has them also
-- refuses a path that the caller may not look at.
inductive Refusal
  | notFound
  | notAFolder
  | isAFolder
  | nameTooLong
  | linkLoop
deriving DecidableEq, Repr

namespace Refusal

def number : Refusal → Nat
  | notFound => 2
  | notAFolder => 20
  | isAFolder => 21
  | nameTooLong => 36
  | linkLoop => 40

def reason : Refusal → Text
  | notFound => "No such file or directory".toList
  | notAFolder => "Not a directory".toList
  | isAFolder => "Is a directory".toList
  | nameTooLong => "File name too long".toList
  | linkLoop => "Too many levels of symbolic links".toList

def message (refusal : Refusal) (path : Path) : Text :=
  "[Errno ".toList ++ Text.ofNat refusal.number ++ "] ".toList ++ refusal.reason ++ ": ".toList
    ++ Text.Quoted.ofText path.text

end Refusal

-- A question about a path that has no answer: the path holds a null character, its links
-- lead in a circle or too deeply into each other, or the system refuses it.
inductive Failure
  | nullCharacter
  | circle (path : Path)
  | tooDeep
  | refused (refusal : Refusal) (path : Path)
deriving DecidableEq, Repr

def Failure.message : Failure → Text
  | .nullCharacter => "embedded null byte".toList
  | .circle path => "Symlink loop from ".toList ++ Text.Quoted.ofText path.text
  | .tooDeep => "maximum recursion depth exceeded".toList
  | .refused refusal path => refusal.message path

end WorkspaceImports.Disk

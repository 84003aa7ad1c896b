import WorkspaceImports.Configuration
import WorkspaceImports.Failure

namespace WorkspaceImports

inductive Level
  | debug
  | info
  | warning
  | error
  | critical
deriving DecidableEq, Repr

namespace Level

def name : Level → Text
  | debug => "DEBUG".toList
  | info => "INFO".toList
  | warning => "WARNING".toList
  | error => "ERROR".toList
  | critical => "CRITICAL".toList

def rank : Level → Nat
  | debug => 10
  | info => 20
  | warning => 30
  | error => 40
  | critical => 50

def all : List Level := [debug, info, warning, error, critical]

def ofName? (name : Text) : Option Level := all.find? (·.name = name)

end Level

-- What happens on the way to an answer and is worth a line in the log.
inductive Event
  | checkFailed (uri : Wording) (reason : Text)
  | folderSkipped (folder : FolderName) (base : List Wording)
  | importFixed (owner : Text) (written : Wording) (fixed : Option Wording)
  | outsideWorkspace (uri : Wording) (root : Path)
  | preferencesUnusable (failure : Failure) (project : Text)
  | ownerOutsideWorkspace (owner : Text) (root : Path)
deriving DecidableEq, Repr

namespace Event

def level : Event → Level
  | checkFailed _ _ => .warning
  | folderSkipped _ _ => .debug
  | importFixed _ _ _ => .debug
  | outsideWorkspace _ _ => .debug
  | preferencesUnusable _ _ => .warning
  | ownerOutsideWorkspace _ _ => .error

def source : Event → Text
  | checkFailed _ _ => "uris".toList
  | folderSkipped _ _ => "resolution.proto".toList
  | importFixed _ _ _ => "resolution.proto".toList
  | outsideWorkspace _ _ => "workspace".toList
  | preferencesUnusable _ _ => "preferences".toList
  | ownerOutsideWorkspace _ _ => []

def message : Event → Text
  | checkFailed uri reason =>
      "Existence check failed for ".toList ++ uri.shown ++ ": ".toList ++ reason
  | folderSkipped folder base =>
      "Skipping folder '".toList ++ folder.shown ++ "': base ".toList
        ++ Text.Quoted.ofList (base.map Wording.shown) ++ " has no source folder segment".toList
  | importFixed owner written fixed =>
      owner ++ " : ".toList ++ written.shown ++ " : ".toList
        ++ (fixed.map Wording.shown).getD "None".toList
  | outsideWorkspace uri root => uri.shown ++ " points outside workspace ".toList ++ root.text
  | preferencesUnusable failure project =>
      failure.message ++ ". Using defaults for project '".toList ++ project ++ "'.".toList
  | ownerOutsideWorkspace owner root =>
      owner ++ " is not inside workspace ".toList ++ root.text

def logger (event : Event) : Text :=
  "proto_uri_fixer".toList ++ (if event.source = [] then [] else '.' :: event.source)

end Event

structure Logged (α : Type) where
  value : α
  log : List Event

end WorkspaceImports

import WorkspaceImports.Configuration
import WorkspaceImports.Disk.Find
import WorkspaceImports.Log
import WorkspaceImports.Text.Basic

namespace WorkspaceImports.Preferences

-- The configuration in the content of a preferences file, which is a JSON object in UTF-8.
-- What the object leaves out is standard.
def ofBytes (path : Path) (content : List UInt8) : Except Failure Configuration :=
  match Utf8.decode content with
  | .error invalid => .error (.noUtf8 invalid (content.getD invalid.position 0))
  | .ok raw =>
      let text := Text.unifyNewlines raw
      match Json.Reader.read text with
      | .error (.malformed fault left) =>
          .error (.preferences path (.malformed fault (Json.Reader.positionOf text left)))
      | .error (.hugeInteger digits) => .error (.hugeInteger digits)
      | .error (.tooDeep container) => .error (.tooDeep container)
      | .ok (.object members) =>
          match Configuration.ofJson (.object members) with
          | .ok configuration => .ok configuration
          | .error invalid => .error (.preferences path (.invalid invalid))
      | .ok _ => .error (.preferences path .noObject)

def load (disk : Disk) (path : Path) : Except Failure Configuration :=
  match disk.read path with
  | .error (.refused refusal _) => .error (.preferences path (.unreadable refusal))
  | .error failure => .error (.disk failure)
  | .ok content => ofBytes path content

-- Where the preferences of a workspace's projects are, and what holds for a project that has
-- none or none that can be used.
structure Loader where
  root : Path
  fileName : Text
  defaults : Configuration
deriving DecidableEq, Repr

namespace Loader

def settingsFolder : Text := ".settings".toList

def path (loader : Loader) (project : Text) : Path :=
  ((loader.root.join (Path.ofText project)).join (Path.ofText settingsFolder)).join
    (Path.ofText loader.fileName)

def load (loader : Loader) (disk : Disk) (project : Text) :
    Logged (Except Failure Configuration) :=
  match disk.isFile? (loader.path project) with
  | .error failure => ⟨.error (.disk failure), []⟩
  | .ok false => ⟨.ok loader.defaults, []⟩
  | .ok true =>
      match Preferences.load disk (loader.path project) with
      | .error (.preferences path problem) =>
          ⟨.ok loader.defaults, [.preferencesUnusable (.preferences path problem) project]⟩
      | found => ⟨found, []⟩

end Loader

end WorkspaceImports.Preferences

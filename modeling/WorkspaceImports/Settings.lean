import WorkspaceImports.Configuration
import WorkspaceImports.Disk.Resolve
import WorkspaceImports.Log

namespace WorkspaceImports

-- The variables of the environment that count. An empty one is set.
structure Environment where
  workspaceRoot : Option Text
  preferencesFile : Option Text
  fileResolution : Option Text
  folderNames : Option Text
  logLevel : Option Text
deriving DecidableEq, Repr

namespace Environment

-- A strategy that is not understood is passed over.
def strategy (environment : Environment) : Strategy :=
  (environment.fileResolution.bind Strategy.ofText?).getD .singleFolder

def configuration (environment : Environment) : Configuration :=
  ⟨environment.strategy, (FolderNames.ofText (environment.folderNames.getD [])).map .text⟩

def threshold (environment : Environment) : Level :=
  (environment.logLevel.bind fun text => Level.ofName? (Text.upper (Text.trim text))).getD .info

end Environment

structure Settings where
  workspaceRoot : Path
  preferencesFile : Text
  defaults : Configuration
  threshold : Level
deriving DecidableEq, Repr

-- The settings as the environment and the disk give them at the start. Without a variable for
-- it, the workspace is the working folder.
def Settings.read (environment : Environment) (disk : Disk) : Except Disk.Failure Settings :=
  match disk.resolve (Path.ofText (environment.workspaceRoot.getD ".".toList)) with
  | .error failure => .error failure
  | .ok workspaceRoot =>
      .ok {
        workspaceRoot
        preferencesFile := environment.preferencesFile.getD "proto_paths.json".toList
        defaults := environment.configuration
        threshold := environment.threshold }

end WorkspaceImports

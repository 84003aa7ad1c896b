import WorkspaceImports.CommandLine.Arguments
import WorkspaceImports.Resolver
import WorkspaceImports.Workspace

namespace WorkspaceImports.CommandLine

section Shown

-- What goes to people goes there as text: a wording stands for what it is shown as.

instance : Coe Wording Text := ⟨Wording.shown⟩

instance : Coe (List Wording) (List Text) := ⟨List.map Wording.shown⟩

instance : Coe (Option Wording) (Option Text) := ⟨Option.map Wording.shown⟩

instance {ε α β : Type} [Coe α β] : Coe (Inquiry (Except ε α)) (Inquiry (Except ε β)) :=
  ⟨Inquiry.map (Except.map Coe.coe)⟩

end Shown

-- What a run leaves: each import with what replaces it, the log, and a status or the failure
-- that ended it.
structure Run where
  fixed : List (Text × Wording)
  log : List Event
  ending : Except Failure Nat

namespace Run

-- The imports one after another, until one of them fails.
def ofImports (resolver : Resolver) (disk : Disk) (owner : Uri) : List Text → Run
  | [] => ⟨[], [], .ok 0⟩
  | written :: rest =>
      let first := resolver.fix disk owner written
      match first.value with
      | .error failure => ⟨[], first.log, .error failure⟩
      | .ok wording =>
          let others := ofImports resolver disk owner rest
          ⟨(written, wording) :: others.fixed, first.log ++ others.log, others.ending⟩

-- The owner's URI. A path has one if it lies below the workspace root.
def ownerUri (workspace : Workspace) (disk : Disk) (owner : Text) :
    Except Disk.Failure (Option Text) :=
  match Scheme.ofText owner with
  | .workspace => .ok (some owner)
  | _ => workspace.uri? disk (Path.ofText owner)

-- Where the configuration comes from. What is given on the command line takes the place of the
-- same part of the owner's configuration, which is read once then.
def sourceFor (arguments : Arguments) (loader : Preferences.Loader) (disk : Disk) (owner : Uri) :
    Logged (Except Failure Source) :=
  if arguments.strategy = none ∧ arguments.folders = .unset then ⟨.ok (.preferences loader), []⟩
  else
    let loaded := (Source.preferences loader).configurationFor disk owner
    match loaded.value with
    | .error failure => ⟨.error failure, loaded.log⟩
    | .ok configuration =>
        let strategy := arguments.strategy.getD configuration.strategy
        let folders :=
          match arguments.folders with
          | .unset => configuration.folderNames
          | .empty => []
          | .text list => (FolderNames.ofText list).map .text
        ⟨.ok (.fixed ⟨strategy, folders⟩), loaded.log⟩

def inWorkspace (settings : Settings) (disk : Disk) (arguments : Arguments)
    (workspace : Workspace) : Run :=
  match ownerUri workspace disk arguments.owner with
  | .error failure => ⟨[], [], .error (.disk failure)⟩
  | .ok none => ⟨[], [.ownerOutsideWorkspace arguments.owner workspace.root], .ok 2⟩
  | .ok (some text) =>
      let owner := Uri.parse text
      let loader := ⟨workspace.root, settings.preferencesFile, settings.defaults⟩
      match sourceFor arguments loader disk owner with
      | ⟨.error failure, log⟩ => ⟨[], log, .error failure⟩
      | ⟨.ok source, log⟩ =>
          let run := ofImports ⟨workspace.check disk, source⟩ disk owner arguments.imports
          { run with log := log ++ run.log }

def rootFor (settings : Settings) (arguments : Arguments) : Except Failure Path :=
  match arguments.workspace with
  | .unset => .ok settings.workspaceRoot
  | .empty => .error .noRoot
  | .text text => .ok (Path.ofText text)

def workspaceFor (settings : Settings) (disk : Disk) (arguments : Arguments) :
    Except Failure Workspace :=
  match rootFor settings arguments with
  | .error failure => .error failure
  | .ok root => (Workspace.ofRoot disk root).mapError .disk

def ofArguments (settings : Settings) (disk : Disk) (arguments : Arguments) : Run :=
  match workspaceFor settings disk arguments with
  | .error failure => ⟨[], [], .error failure⟩
  | .ok workspace => inWorkspace settings disk arguments workspace

-- The lines as they are handed to the output. Whether it has bytes for a half is its own matter.
def output (run : Run) : Wording :=
  run.fixed.flatMap fun (written, wording) =>
    .text written ++ .text " -> ".toList ++ wording ++ [.char '\n']

-- The events that are shown, and their lines. A verbose run shows all of them.
def shown (run : Run) (settings : Settings) (arguments : Arguments) : List Event :=
  let threshold := if arguments.verbose then Level.debug else settings.threshold
  run.log.filter fun event => threshold.rank ≤ event.level.rank

end Run

def logLine (event : Event) : Text :=
  event.logger ++ " - ".toList ++ event.level.name ++ " - ".toList ++ event.message ++ ['\n']

end WorkspaceImports.CommandLine

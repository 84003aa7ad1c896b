import WorkspaceImports.CommandLine.Help
import WorkspaceImports.CommandLine.Run
import WorkspaceImports.Disk.Edit

namespace WorkspaceImports.Survey

-- A run is computed over a disk that is a value. What a run can ask about is known beforehand,
-- so the disk is filled from the system with just that.

def textOf (place : Location) : String := String.ofList (Path.text ⟨.root, place⟩)

-- The real place of what stands at a place, if anything does. Nothing has a name with a slash.
def real? (place : Location) : IO (Option Location) := do
  if place.any (·.contains '/') then return none
  try
    let found ← IO.FS.realPath (textOf place)
    return some (Path.ofText (toString found).toList).names
  catch _ => return none

-- What stands at a real place. Only a file can be read.
def node (place : Location) : IO Node := do
  try
    let content ← IO.FS.readBinFile (textOf place)
    return .file content.toList
  catch _ => return .folder []

-- Adds what the system finds on the way along a path. Where a name leads to another place than
-- its own, a link stands.
def along (disk : Disk) (place : Location) : List Text → IO Disk
  | [] => return disk
  | name :: rest => do
      if name = ['.', '.'] then along disk place.dropLast rest
      else
        match ← real? (place ++ [name]) with
        | none => along disk (place ++ [name]) rest
        | some real =>
            let linked :=
              if real = place ++ [name] then disk
              else disk.insert (place ++ [name]) (.link (Path.text ⟨.root, real⟩))
            if (linked.at? real).isSome then along linked real rest
            else along (linked.insert real (← node real)) real rest

def path (disk : Disk) (path : Path) : IO Disk := along disk (disk.start path) path.names

def paths (disk : Disk) (paths : List Path) : IO Disk := paths.foldlM path disk

def start : IO Disk := do
  let folder := Path.ofText (toString (← IO.currentDir)).toList
  return { entries := [], here := folder.names : Disk }.insert folder.names (.folder [])

-- The disk with what the owner's preferences are read from and with the candidates of the
-- imports, which depend on these preferences.
def forRun (settings : Settings) (disk : Disk) (arguments : CommandLine.Arguments) :
    IO Disk := do
  let .ok root := CommandLine.Run.rootFor settings arguments | return disk
  let disk ← paths disk [root, Path.ofText arguments.owner]
  match Workspace.ofRoot disk root with
  | .error _ => return disk
  | .ok workspace =>
      match CommandLine.Run.ownerUri workspace disk arguments.owner with
      | .ok (some text) =>
          let owner := Uri.parse text
          let loader : Preferences.Loader :=
            ⟨workspace.root, settings.preferencesFile, settings.defaults⟩
          let disk ← paths disk (owner.project?.map loader.path).toList
          match (CommandLine.Run.sourceFor arguments loader disk owner).value with
          | .error _ => return disk
          | .ok source =>
              match (source.configurationFor disk owner).value with
              | .error _ => return disk
              | .ok configuration =>
                  let candidates := arguments.imports.flatMap fun written =>
                    Import.candidates configuration owner (.text written)
                  paths disk (candidates.map fun candidate =>
                    workspace.pathOfWordings candidate.segments.tail)
      | _ => return disk

def environment : IO Environment := do
  let read := fun name => return (← IO.getEnv name).map String.toList
  return {
    workspaceRoot := ← read "PROTO_WORKSPACE_ROOT"
    preferencesFile := ← read "PROTO_PREFERENCES_FILE"
    fileResolution := ← read "PROTO_FILE_RESOLUTION"
    folderNames := ← read "PROTO_FOLDER_NAMES"
    logLevel := ← read "PROTO_LOG_LEVEL" }

def failed (failure : Failure) : IO UInt32 := do
  IO.eprintln (String.ofList failure.message)
  return 1

end WorkspaceImports.Survey

open WorkspaceImports

def main (texts : List String) : IO UInt32 := do
  let environment ← Survey.environment
  let disk ← Survey.start
  let root := Path.ofText (environment.workspaceRoot.getD ".".toList)
  match Settings.read environment (← Survey.path disk root) with
  | .error failure => Survey.failed (.disk failure)
  | .ok settings =>
      match CommandLine.Arguments.ofTexts (texts.map String.toList) with
      | .error .help =>
          IO.print (String.ofList CommandLine.help)
          return 0
      | .error (.misused misuse) =>
          IO.eprint (String.ofList (CommandLine.usage ++ CommandLine.errorLine misuse))
          return 2
      | .ok arguments =>
          let disk ← Survey.forRun settings disk arguments
          let run := CommandLine.Run.ofArguments settings disk arguments
          IO.eprint (String.ofList ((run.shown settings arguments).flatMap CommandLine.logLine))
          IO.print (String.ofList run.output)
          match run.ending with
          | .ok status => return status.toUInt32
          | .error failure => Survey.failed failure

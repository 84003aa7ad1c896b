import WorkspaceImports.CommandLine.Arguments

namespace WorkspaceImports.CommandLine

def program : Text := "proto-uri-fixer".toList

def usage : Text :=
  ("usage: proto-uri-fixer [-h] [--workspace WORKSPACE]\n" ++
    "                       [--strategy \x7bSINGLE_FOLDER,MULTI_FOLDER\x7d]\n" ++
    "                       [--folders FOLDERS] [--verbose]\n" ++
    "                       owner imports [imports ...]\n").toList

def help : Text :=
  usage ++
    ("\nResolve relative .proto imports to platform:/resource URIs.\n" ++
      "\npositional arguments:\n" ++
      "  owner                 File containing the imports: a platform:/resource URI\n" ++
      "                        or a path under the workspace\n" ++
      "  imports               Import strings as written in the file\n" ++
      "\noptions:\n" ++
      "  -h, --help            show this help message and exit\n" ++
      "  --workspace WORKSPACE\n" ++
      "                        Workspace root folder; each project is a direct child\n" ++
      "                        of it\n" ++
      "  --strategy \x7bSINGLE_FOLDER,MULTI_FOLDER\x7d\n" ++
      "                        Override the project's file resolution type\n" ++
      "  --folders FOLDERS     Comma-separated folder names to try (MULTI_FOLDER)\n" ++
      "  --verbose             Enable debug logging\n").toList

def errorLine (misuse : Misuse) : Text :=
  program ++ ": error: ".toList ++ misuse.message ++ ['\n']

def Stop.status : Stop → Nat
  | help => 0
  | misused _ => 2

end WorkspaceImports.CommandLine

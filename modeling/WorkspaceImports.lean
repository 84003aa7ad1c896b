import WorkspaceImports.Text.Basic
import WorkspaceImports.Text.Wording
import WorkspaceImports.Text.Quoted
import WorkspaceImports.Text.Utf8
import WorkspaceImports.Text.Percent
import WorkspaceImports.Path
import WorkspaceImports.Disk.Basic
import WorkspaceImports.Disk.Error
import WorkspaceImports.Disk.Find
import WorkspaceImports.Disk.Resolve
import WorkspaceImports.Disk.Edit
import WorkspaceImports.Json.Basic
import WorkspaceImports.Json.Reader
import WorkspaceImports.Validation
import WorkspaceImports.Configuration
import WorkspaceImports.Failure
import WorkspaceImports.Log
import WorkspaceImports.Settings
import WorkspaceImports.Preferences
import WorkspaceImports.Uri.Basic
import WorkspaceImports.Uri.Validation
import WorkspaceImports.Existence
import WorkspaceImports.Resolution
import WorkspaceImports.Workspace
import WorkspaceImports.Resolver
import WorkspaceImports.CommandLine.Word
import WorkspaceImports.CommandLine.Arguments
import WorkspaceImports.CommandLine.Help
import WorkspaceImports.CommandLine.Run
import WorkspaceImports.Main
import WorkspaceImports.Proofs.Text.Segments
import WorkspaceImports.Proofs.Text.Wording
import WorkspaceImports.Proofs.Text.Trim
import WorkspaceImports.Proofs.Text.Newline
import WorkspaceImports.Proofs.Text.Percent
import WorkspaceImports.Proofs.Text.Utf8
import WorkspaceImports.Proofs.Path
import WorkspaceImports.Proofs.Text.Name
import WorkspaceImports.Proofs.Disk.Way
import WorkspaceImports.Proofs.Disk.Locate
import WorkspaceImports.Proofs.Disk.Resolve
import WorkspaceImports.Proofs.Disk.Lexical
import WorkspaceImports.Proofs.Disk.Settled
import WorkspaceImports.Proofs.Disk.Walk
import WorkspaceImports.Proofs.Disk.Journey
import WorkspaceImports.Proofs.Disk.Tower
import WorkspaceImports.Proofs.Disk.Growth
import WorkspaceImports.Proofs.Uri.Segments
import WorkspaceImports.Proofs.Uri.Wording
import WorkspaceImports.Proofs.Import.Search
import WorkspaceImports.Proofs.Import.Candidate
import WorkspaceImports.Proofs.Import.FailedCheck
import WorkspaceImports.Proofs.Import.Fixpoint
import WorkspaceImports.Proofs.Import.Directory
import WorkspaceImports.Proofs.Import.SourceFolder
import WorkspaceImports.Proofs.Uri.Canonical
import WorkspaceImports.Proofs.Workspace.Confinement
import WorkspaceImports.Proofs.Workspace.RoundTrip
import WorkspaceImports.Proofs.Workspace.Unlinked
import WorkspaceImports.Proofs.Workspace.Wording
import WorkspaceImports.Proofs.Workspace.Mapping
import WorkspaceImports.Proofs.Json.Reader
import WorkspaceImports.Proofs.Json.Limits
import WorkspaceImports.Proofs.Json.Depth
import WorkspaceImports.Proofs.Json.Member
import WorkspaceImports.Proofs.Json.Letters
import WorkspaceImports.Proofs.Json.Spelling
import WorkspaceImports.Proofs.Json.Reading
import WorkspaceImports.Proofs.Json.Writer
import WorkspaceImports.Proofs.Configuration.FolderNames
import WorkspaceImports.Proofs.Configuration.Format
import WorkspaceImports.Proofs.Configuration.Environment
import WorkspaceImports.Proofs.Preferences.Fallback
import WorkspaceImports.Proofs.Preferences.Place
import WorkspaceImports.Proofs.Preferences.Unmixed
import WorkspaceImports.Proofs.Preferences.Written
import WorkspaceImports.Proofs.Preferences.Planted
import WorkspaceImports.Proofs.Preferences.Owner
import WorkspaceImports.Proofs.Import.Isolation
import WorkspaceImports.Proofs.Import.Lookup
import WorkspaceImports.Proofs.Import.Growth
import WorkspaceImports.Proofs.CommandLine.Switches
import WorkspaceImports.Proofs.CommandLine.Ending
import WorkspaceImports.Proofs.CommandLine.Override
import WorkspaceImports.Proofs.Text.Escape
import WorkspaceImports.Proofs.Uri.LocalPath
import WorkspaceImports.Proofs.Disk.Arrival
import WorkspaceImports.Proofs.Disk.Chain
import WorkspaceImports.Proofs.Workspace.Address
import WorkspaceImports.Proofs.Workspace.Canonical
import WorkspaceImports.Proofs.Uri.Existence
import WorkspaceImports.Proofs.Uri.Folder

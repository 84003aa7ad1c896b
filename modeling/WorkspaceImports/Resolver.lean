import WorkspaceImports.Preferences
import WorkspaceImports.Resolution
import WorkspaceImports.Settings

namespace WorkspaceImports

-- Where the configuration of an owner comes from: one for all of them, the preferences of the
-- owner's project, or the environment.
inductive Source
  | fixed (configuration : Configuration)
  | preferences (loader : Preferences.Loader)
  | environment (settings : Settings)
deriving DecidableEq, Repr

namespace Source

-- A configuration for all comes before the preferences, and these before the environment.
def of (settings : Settings) (loader : Option Preferences.Loader)
    (configuration : Option Configuration) : Source :=
  match configuration, loader with
  | some configuration, _ => fixed configuration
  | none, some loader => preferences loader
  | none, none => environment settings

-- The configuration for the imports of a file. A file in no project has the defaults.
def configurationFor (source : Source) (disk : Disk) (owner : Uri) :
    Logged (Except Failure Configuration) :=
  match source with
  | fixed configuration => ⟨.ok configuration, []⟩
  | environment settings => ⟨.ok settings.defaults, []⟩
  | preferences loader =>
      match owner.project? with
      | none => ⟨.ok loader.defaults, []⟩
      | some project => loader.load disk project

end Source

structure Resolver where
  check : Check
  source : Source

namespace Resolver

def resolve (resolver : Resolver) (disk : Disk) (owner : Uri) (written : Wording) :
    Inquiry (Except Failure (Option Wording)) :=
  match resolver.source.configurationFor disk owner with
  | ⟨.error failure, log⟩ => ⟨.error failure, [], log⟩
  | ⟨.ok configuration, log⟩ =>
      let found := Import.resolve disk resolver.check configuration owner written
      ⟨.ok found.value, found.asked, log ++ found.log⟩

def fix (resolver : Resolver) (disk : Disk) (owner : Uri) (written : Wording) :
    Inquiry (Except Failure Wording) :=
  match resolver.source.configurationFor disk owner with
  | ⟨.error failure, log⟩ => ⟨.error failure, [], log⟩
  | ⟨.ok configuration, log⟩ =>
      let fixed := Import.fix disk resolver.check configuration owner written
      ⟨.ok fixed.value, fixed.asked, log ++ fixed.log⟩

end Resolver

end WorkspaceImports

import HookWeave.Hook.Conventions
import HookWeave.Storage.Path

/-!
# Configuration

Where modules are found, how hooks are recognised, and how much of the work is done: whether hooks
are checked against their targets, and whether anything is written.
-/

namespace HookWeave

/-- How patches are applied. -/
structure Config where
  /-- The directory of the modules. -/
  root : Path
  /-- The module that declares the marker, as seen from the root. -/
  framework : Path
  /-- What the names of modules' files end with, after a dot. -/
  extension : String := "dll"
  /-- The type of the attribute that added fields carry. -/
  marker : String := "InjectAttribute"
  conventions : Conventions := {}
  /-- Hooks are checked against their targets. -/
  verify : Bool := true
  /-- Nothing is written. -/
  dryRun : Bool := false

namespace Config

/-- The file of a module. -/
def modulePath (c : Config) (scope : String) : Path :=
  c.root.join ⟨scope ++ "." ++ c.extension⟩

/-- The file that a path names as seen from the root. -/
def resolvePath (c : Config) (path : Path) : Path :=
  c.root.join path

/-- The file of the module that declares the marker. -/
def frameworkPath (c : Config) : Path :=
  c.resolvePath c.framework

end Config

end HookWeave

import HookWeave.Hook.Scan
import HookWeave.Hook.Weave
import HookWeave.Patch.Inject

/-!
# Applying patches

A request is applied on its own (`Config.apply`): the target and the types of the fields are
resolved in a fresh store, the fields are added, the hook is woven in, and the modules that changed
are written, all or none. A run (`Config.run`) applies every request that the hook modules make.
What fails is reported and does not keep the others from being applied.
-/

namespace HookWeave

/-- A patch that was applied. -/
structure AppliedPatch where
  /-- The hook by name. -/
  hook : String
  /-- The target by name. -/
  target : String
  kind : HookKind
  /-- The names of the fields that were added. -/
  fields : List String
  deriving DecidableEq, Repr

/-- What could not be done, and why. -/
structure Diagnostic where
  subject : String
  fault : Fault
  deriving DecidableEq, Repr

/-- What a run did, in the order in which it was done. -/
structure Report where
  applied : List AppliedPatch := []
  diagnostics : List Diagnostic := []
  /-- The files that were written, each once. -/
  written : List Path := []
  deriving DecidableEq, Repr

namespace Report

/-- Everything could be done. -/
def isClean (r : Report) : Bool :=
  r.diagnostics.isEmpty

/-- Takes down what could not be done. -/
def diagnose (r : Report) (subject : String) (fault : Fault) : Report :=
  { r with diagnostics := r.diagnostics ++ [⟨subject, fault⟩] }

/-- Adds a file to those that were written. -/
def addWritten (r : Report) (path : Path) : Report :=
  if r.written.any (·.same path) then r else { r with written := r.written ++ [path] }

/-- Takes down a patch and the files that were written for it. -/
def record (r : Report) (patch : AppliedPatch) (written : List Path) : Report :=
  written.foldl addWritten { r with applied := r.applied ++ [patch] }

end Report

namespace Config

/-- The constructor of the marker attribute, which fields carry that a patch adds. -/
def markerConstructor (c : Config) (files : Files) : Except Fault MethodRef := do
  let path := c.frameworkPath
  let m ← (Module.ofFile files path).mapError (.moduleUnreadable path.text)
  let index ← m.findType c.marker
  let constructor ← m.findConstructor index
  let method ← m.methodAt index constructor
  return method.reference (← m.typeRef index)

/-- Makes the changes that a request asks for in the modules of a store. -/
def weave (c : Config) (files : Files) (marker : MethodRef) (r : PatchRequest) :
    Store.Edit AppliedPatch := do
  let owner ← c.resolveType files r.targetType
  let target ← Store.query (owner.resolveMethod · r.targetMethod)
  let added ← r.injected.mapM (c.injectField files marker owner)
  Store.change owner.path fun m => do
    let method ← m.methodAt owner.index target.index
    let woven ← ({ conventions := c.conventions, owner := owner.type, target := method, request := r }
      : Weaving).weave c.verify
    let m ← m.modifyMethod owner.index target.index fun _ => woven
    return ((), m.importScope r.hook.owner.scope)
  return ⟨r.hookName, r.targetName, r.kind, added.filterMap id⟩

variable {σ : Type} [Disk σ]

/-- Applies a request and gives the files that were written. -/
def apply (c : Config) (marker : MethodRef) (r : PatchRequest) :
    EStateM Fault σ (AppliedPatch × List Path) := do
  match c.weave (Disk.files (← get)) marker r .empty with
  | .error e _ => throw e
  | .ok patch store =>
    if c.dryRun then
      return (patch, [])
    let (written, _) ← store.commit
    return (patch, written)

/-- Applies the request that a patch attribute made, if it made one. -/
def process (c : Config) (marker : MethodRef) (progress : Report × σ) (hook : ScannedHook) :
    Report × σ :=
  let (report, disk) := progress
  match hook.request with
  | .error e => (report.diagnose hook.hook e, disk)
  | .ok r =>
    match c.apply marker r disk with
    | .ok (patch, written) disk => (report.record patch written, disk)
    | .error e disk => (report.diagnose r.arrow e, disk)

/-- Applies the requests of a hook module, if it can be read. -/
def processModule (c : Config) (marker : MethodRef) (progress : Report × σ) (path : Path) :
    Report × σ :=
  let (report, disk) := progress
  let path := c.resolvePath path
  match Module.ofFile (Disk.files disk) path with
  | .error e => (report.diagnose path.text (.moduleUnreadable path.text e), disk)
  | .ok m => (c.conventions.scan m).foldl (c.process marker) (report, disk)

/-- Applies the requests of hook modules. Fails only if there is no marker, and then does
nothing. -/
def run (c : Config) (hookModules : List Path) : EStateM Fault σ Report := fun disk =>
  match c.markerConstructor (Disk.files disk) with
  | .error e => .error e disk
  | .ok marker =>
    let (report, disk) := hookModules.foldl (c.processModule marker) ({}, disk)
    .ok report disk

end Config

end HookWeave

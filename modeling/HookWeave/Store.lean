import HookWeave.Image.Reading
import HookWeave.Image.Writing
import HookWeave.Storage.Disk

/-!
# Module stores

A store holds the modules that are open, each by the path of its file. A module is read when it is
first asked for; from then on the store's own value is used and changed. `Store.save` writes one
module and `Store.commit` writes all that were changed, or none of them.
-/

namespace HookWeave

/-- Reads the module in a file. -/
def Module.ofFile (files : Files) (path : Path) : Except Fault Module := do
  Module.ofBytes (← FileData.ofFile files path).bytes

/-- The open modules. -/
structure Store where
  /-- The modules, each with the path that it was first asked for by. -/
  modules : List (Path × Module)
  distinct : (modules.map (·.1.components)).Nodup

namespace Store

/-- The store without modules. -/
def empty : Store := ⟨[], by simp⟩

/-- The number of open modules. -/
def size (s : Store) : Nat :=
  s.modules.length

/-- No module is open. -/
def isEmpty (s : Store) : Bool :=
  s.modules.isEmpty

/-- The module of a path, if it is open. -/
def get? (s : Store) (path : Path) : Option Module :=
  (s.modules.find? (·.1.same path)).map (·.2)

/-- The module of a path is open. -/
def isOpen (s : Store) (path : Path) : Bool :=
  s.modules.any (·.1.same path)

/-- The open module of a path. -/
def module (s : Store) (path : Path) : Except Fault Module :=
  match s.get? path with
  | some m => .ok m
  | none => .error (.moduleNotOpen path.text)

/-- Opens a module under a path that none is open under. -/
def insert (s : Store) (path : Path) (m : Module) (h : s.isOpen path = false) : Store where
  modules := s.modules ++ [(path, m)]
  distinct := by
    simp only [List.map_append, List.map_cons, List.map_nil]
    refine List.nodup_append.2 ⟨s.distinct, by simp, fun a ha b hb e => ?_⟩
    obtain ⟨entry, hentry, rfl⟩ := List.mem_map.1 ha
    simp only [List.mem_singleton] at hb
    have := List.any_eq_false.1 h entry hentry
    simp [Path.same, e, hb] at this

/-- Changes the modules that are chosen by their paths. -/
def modifyWhere (s : Store) (chosen : Path → Bool) (f : Module → Module) : Store where
  modules := s.modules.map fun e => if chosen e.1 then (e.1, f e.2) else e
  distinct := by
    have : (s.modules.map fun e => if chosen e.1 then (e.1, f e.2) else e).map (·.1.components)
        = s.modules.map (·.1.components) := by
      rw [List.map_map]
      refine List.map_congr_left fun e _ => ?_
      by_cases h : chosen e.1 <;> simp [h]
    rw [this]
    exact s.distinct

/-- Puts a module in the place of the open one of a path. -/
def replace (s : Store) (path : Path) (m : Module) : Store :=
  s.modifyWhere (·.same path) fun _ => m

/-- Closes the module of a path. What was not written is lost. -/
def release (s : Store) (path : Path) : Store where
  modules := s.modules.filter (!·.1.same path)
  distinct := s.distinct.sublist (List.filter_sublist.map _)

/-- The paths of the modules that were changed, in the order of paths. -/
def dirtyPaths (s : Store) : List Path :=
  ((s.modules.filter (·.2.dirty)).map (·.1)).mergeSort Path.le

/-! ## Opening and changing -/

/-- A change of a store. What it opened before it fails stays open. -/
abbrev Edit := EStateM Fault Store

/-- A result that has nothing to do with the store. -/
def ofExcept {α : Type} : Except Fault α → Edit α
  | .ok a => return a
  | .error e => throw e

/-- What is worked out from a store without changing it. -/
def query {α : Type} (f : Store → Except Fault α) : Edit α := do
  ofExcept (f (← get))

/-- The module of a path, opened if it is not. -/
def openModule (files : Files) (path : Path) : Edit Module := do
  let s ← get
  match h : s.isOpen path with
  | true => query (·.module path)
  | false =>
    let m ← ofExcept ((Module.ofFile files path).mapError (.moduleUnreadable path.text))
    set (s.insert path m h)
    return m

/-- Changes the open module of a path. -/
def change {α : Type} (path : Path) (f : Module → Except Fault (α × Module)) : Edit α := do
  let (a, m) ← query fun s => do f (← s.module path)
  modify (·.replace path m)
  return a

/-! ## Writing -/

variable {σ : Type} [Disk σ]

/-- The image of an open module. -/
def image (s : Store) (path : Path) : Except Fault Bytes := do
  let m ← s.module path
  m.toBytes.mapError (.moduleNotEncoded path.text)

/-- Writes the image of an open module to a file. -/
def writeImage (s : Store) (path target : Path) : EStateM Fault σ Unit := do
  match s.image path with
  | .ok image => Disk.writing path (Disk.write target image)
  | .error e => throw e

/-- Writes an open module to its file. -/
def save (s : Store) (path : Path) : EStateM Fault σ Store := do
  s.writeImage path path
  return s.modifyWhere (·.same path) Module.clean

/-- The file next to a module's file that its image is written to first. -/
def staging (path : Path) : Path :=
  path.withSuffix ".tmp"

/-- The file next to a module's file that it is kept as until all files are replaced. -/
def backup (path : Path) : Path :=
  path.withSuffix ".bak"

/-- Removes the staged images of modules. -/
def discardStaged (paths : List Path) : EStateM Fault σ Unit :=
  paths.forM fun path => Disk.attempt (Disk.remove (staging path))

/-- Stages the images of modules, after those that are staged already. If one fails, none stays
staged. -/
def stage (s : Store) (done : List Path) : List Path → EStateM Fault σ Unit
  | [] => return
  | path :: rest => do
    try
      s.writeImage path (staging path)
    catch e =>
      discardStaged (done ++ [path])
      throw e
    s.stage (done ++ [path]) rest

/-- Moves the file of a module aside, if there is one, and its staged image into its place. Gives
whether there was a file. If the image cannot be moved, the file is moved back. -/
def swap (path : Path) : DiskOp σ Bool := do
  let existed := Disk.occupied (← get) path
  if existed then
    Disk.rename path (backup path)
  try
    Disk.rename (staging path) path
  catch e =>
    if existed then
      Disk.attempt (Disk.rename (backup path) path)
    throw e
  return existed

/-- A module's file after it was replaced, and whether there was one before. -/
structure Swapped where
  path : Path
  existed : Bool

/-- Undoes the replacement of a file. -/
def Swapped.undo (r : Swapped) : EStateM Fault σ Unit :=
  Disk.attempt (if r.existed then Disk.rename (backup r.path) r.path else Disk.remove r.path)

/-- Replaces the files of modules by their staged images, after those that are replaced already,
latest first. If one fails, the others are undone and nothing stays staged. -/
def swapAll (done : List Swapped) : List Path → EStateM Fault σ (List Swapped)
  | [] => return done
  | path :: rest => do
    let existed ←
      try
        Disk.writing path (swap path)
      catch e =>
        done.forM Swapped.undo
        discardStaged (path :: rest)
        throw e
    swapAll (⟨path, existed⟩ :: done) rest

/-- Writes all modules that were changed to their files, or none of them, and gives their paths.
All images are written next to the files before any file is replaced, and every file is kept until
all are replaced. -/
def commit (s : Store) : EStateM Fault σ (List Path × Store) := do
  let paths := s.dirtyPaths
  s.stage [] paths
  let swapped ← swapAll [] paths
  swapped.reverse.forM fun r => do
    if r.existed then
      Disk.attempt (Disk.remove (backup r.path))
  return (paths, s.modifyWhere (fun _ => true) Module.clean)

end Store

end HookWeave

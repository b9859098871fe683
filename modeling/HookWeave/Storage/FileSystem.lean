import HookWeave.Storage.Disk

/-!
# File systems

A tree of directories and files, as a list of its entries by location. Paths are followed step by
step, each from a directory that exists, so that a path through a missing directory or through a
file leads nowhere. Paths and names that are too long lead nowhere either, whatever there is.
-/

namespace HookWeave

/-- What there is at a location. -/
inductive Entry where
  | directory
  | file (data : Bytes)
  deriving DecidableEq, Repr

/-- A place in the tree: the names on the way to it, from the top. -/
abbrev Location := List String

/-- A tree of directories and files. -/
structure FileSystem where
  entries : List (Location × Entry)

namespace FileSystem

/-- The tree with nothing but its top. -/
def empty : FileSystem := ⟨[]⟩

/-- What there is at a location. -/
def get? (fs : FileSystem) : Location → Option Entry
  | [] => some .directory
  | location => fs.entries.lookup location

/-- The greatest size of a name in bytes. -/
def maxNameSize : Nat := 255

/-- A step from a location, which is a directory if the step is possible. -/
def step (fs : FileSystem) (location : Location) (s : Path.Step) : Except IoFault Location :=
  match fs.get? location with
  | none => .error .notFound
  | some (.file _) => .error .notDirectory
  | some .directory =>
    match s with
    | .top => .ok []
    | .stay => .ok location
    | .up => .ok location.dropLast
    | .name name =>
      if name.utf8ByteSize ≤ maxNameSize then .ok (location ++ [name])
      else .error .nameTooLong

/-- The greatest size of a path in bytes. -/
def maxPathSize : Nat := 4095

/-- A path is refused for its text before anything on the way is looked at. -/
def checkText (path : Path) : Except IoFault Unit :=
  if path.text.toList.contains '\x00' then .error .nulInPath
  else if path.text.isEmpty then .error .notFound
  else if maxPathSize < path.text.utf8ByteSize then .error .nameTooLong
  else .ok ()

/-- The location that a path leads to. Nothing need be there. -/
def follow (fs : FileSystem) (path : Path) : Except IoFault Location := do
  checkText path
  path.steps.foldlM fs.step []

/-- Puts an entry at a location. -/
def put (fs : FileSystem) (location : Location) (entry : Entry) : FileSystem :=
  ⟨(location, entry) :: fs.entries.filter (·.1 ≠ location)⟩

/-- Takes away what there is at a location and below it. -/
def prune (fs : FileSystem) (location : Location) : FileSystem :=
  ⟨fs.entries.filter fun e => !location.isPrefixOf e.1⟩

/-- Something is below a location. -/
def hasChildren (fs : FileSystem) (location : Location) : Bool :=
  fs.entries.any fun e => location.isPrefixOf e.1 && e.1 ≠ location

/-- What there is at a location and below it, under another location. -/
def moved (fs : FileSystem) (source target : Location) : List (Location × Entry) :=
  (fs.entries.filter fun e => source.isPrefixOf e.1).map fun e =>
    (target ++ e.1.drop source.length, e.2)

/-- The directories above a location, nearest to the top first. -/
def above (location : Location) : List Location :=
  (List.range location.length).map location.take

/-- Puts an entry at a location, and directories above it where there is nothing. -/
def place (fs : FileSystem) (location : Location) (entry : Entry) : FileSystem :=
  let ready := (above location).foldl
    (fun fs l => if (fs.get? l).isSome then fs else fs.put l .directory) fs
  ready.put location entry

/-- The text of a location from another above it. The text of a directory ends with a slash. -/
def label (depth : Nat) (location : Location) : Entry → String
  | .directory => "/".intercalate (location.drop depth) ++ "/"
  | .file _ => "/".intercalate (location.drop depth)

/-- What there is below a location, by the texts of the locations and in the order of these. -/
def listing (fs : FileSystem) (root : Location) : List (String × Entry) :=
  let below := fs.entries.filter fun e => root.isPrefixOf e.1 && e.1 ≠ root
  (below.map fun e => (label root.length e.1 e.2, e.2)).mergeSort fun a b => a.1 ≤ b.1

/-! ## As a disk -/

/-- The contents of a file. A directory can be opened, but not read. -/
def read (fs : FileSystem) (path : Path) : Except IoFault Bytes := do
  match fs.get? (← fs.follow path) with
  | some (.file data) => return data
  | some .directory => throw .noSuchDevice
  | none => throw .notFound

/-- There is something at a path. -/
def occupied (fs : FileSystem) (path : Path) : Bool :=
  match fs.follow path with
  | .ok location => (fs.get? location).isSome
  | .error _ => false

/-- The tree with a file written. A path that ends with a slash cannot name a file, whatever there
is. -/
def written (fs : FileSystem) (path : Path) (data : Bytes) : Except IoFault FileSystem := do
  checkText path
  if path.endsWithSlash then
    let _ ← fs.follow path.trimSlashes
    throw .isDirectory
  let location ← fs.follow path
  match fs.get? location with
  | some .directory => throw .isDirectory
  | _ => return fs.put location (.file data)

/-- The tree with an entry moved. It takes the place of a file, or of a directory without
entries. -/
def renamed (fs : FileSystem) (source target : Path) : Except IoFault FileSystem := do
  checkText source
  checkText target
  let source ← fs.follow source
  let target ← fs.follow target
  let after : FileSystem :=
    ⟨fs.moved source target ++ ((fs.prune source).prune target).entries⟩
  match fs.get? source, fs.get? target with
  | none, _ => throw .notFound
  | some .directory, found =>
    if source = target then
      return fs
    if source.isPrefixOf target then
      throw .invalidArgument
    match found with
    | some (.file _) => throw .notDirectory
    | some .directory =>
      if fs.hasChildren target then
        throw .notEmpty
      return after
    | none => return after
  | some (.file _), some .directory =>
    if target.isPrefixOf source then
      throw .notEmpty
    throw .isDirectory
  | some (.file _), _ =>
    if source = target then
      return fs
    return after

/-- The tree without a file. -/
def removed (fs : FileSystem) (path : Path) : Except IoFault FileSystem := do
  let location ← fs.follow path
  match fs.get? location with
  | some (.file _) => return fs.prune location
  | some .directory => throw .isDirectory
  | none => throw .notFound

/-- A change that takes effect whole or not at all. -/
def change (f : FileSystem → Except IoFault FileSystem) : DiskOp FileSystem Unit := fun fs =>
  match f fs with
  | .ok fs => .ok () fs
  | .error e => .error e fs

instance : Disk FileSystem where
  files := read
  occupied := occupied
  write path data := change (·.written path data)
  rename source target := change (·.renamed source target)
  remove path := change (·.removed path)

end FileSystem

end HookWeave

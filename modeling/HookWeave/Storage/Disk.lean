import HookWeave.Bytes.Encoding
import HookWeave.Storage.Path

/-!
# Disks

What is asked of a disk. Every operation takes effect or fails with a reason. What a failing write
or rename leaves behind is up to the disk.
-/

namespace HookWeave

/-- The contents of files, or why they cannot be had. -/
abbrev Files := Path → Except IoFault Bytes

/-- The contents of a file that holds anything at all. -/
def FileData.ofFile (files : Files) (path : Path) : Except Fault FileData := do
  let bytes ← (files path).mapError .file
  FileData.ofBytes bytes

/-- An operation on a disk. -/
abbrev DiskOp (σ : Type) := EStateM IoFault σ

/-- A disk with states `σ`. -/
class Disk (σ : Type) where
  /-- The files. -/
  files : σ → Files
  /-- There is something at a path. -/
  occupied : σ → Path → Bool
  /-- Writes a file, whether or not there is one. -/
  write : Path → Bytes → DiskOp σ Unit
  /-- Moves what is at one path to another. -/
  rename : Path → Path → DiskOp σ Unit
  /-- Removes a file. -/
  remove : Path → DiskOp σ Unit

namespace Disk

variable {σ : Type}

/-- An operation whose failure does not matter. -/
def attempt {ε : Type} (op : DiskOp σ Unit) : EStateM ε σ Unit := fun disk =>
  match op disk with
  | .ok _ disk | .error _ disk => .ok () disk

/-- An operation whose failure is one to write the module of a path. -/
def writing {α : Type} (path : Path) (op : DiskOp σ α) : EStateM Fault σ α :=
  op.adaptExcept (.moduleNotWritten path.text)

end Disk

end HookWeave

import HookWeave.Code.InstructionList
import Std.Data.HashMap

/-!
# Code layout

Where every instruction of a body starts, and which form its branches take. A short branch whose
target is too far away takes the long form of its opcode. Widening one branch moves what follows
it and may push other branches out of reach, so passes are made until one changes nothing.
-/

namespace HookWeave

/-- The number of bytes of an instruction. -/
def Instruction.encodedSize (i : Instruction) : Except Fault Nat :=
  match i.op.info.kind.size?, i.operand with
  | some size, _ => .ok (i.op.size + size)
  | none, .switch ids => .ok (i.op.size + (4 + 4 * ids.length))
  | none, operand => .error (.malformed (.jumpTableExpected i.op operand))

/-- An instruction and the bytes that it takes up. -/
structure Placed where
  instruction : Instruction
  start : Nat
  size : Nat

/-- The offset behind the instruction, from which its displacements count. -/
def Placed.stop (p : Placed) : Nat :=
  p.start + p.size

/-- Instructions one after another from an offset on. -/
def placeFrom (start : Nat) : List Instruction → Except Fault (List Placed)
  | [] => .ok []
  | i :: is => do
    let size ← i.encodedSize
    let rest ← placeFrom (start + size) is
    return ⟨i, start, size⟩ :: rest

/-- The positions of instructions by identity. -/
abbrev InstructionIndex := Std.HashMap InstrId Nat

/-- The positions of the instructions of a list. -/
def InstructionList.index (l : InstructionList) : InstructionIndex :=
  .ofList ((l.items.map (·.id)).zipIdx)

/-- The position of an instruction, which must be in the list. -/
def InstructionIndex.position (index : InstructionIndex) (id : InstrId) : Except Fault Nat :=
  match index[id]? with
  | some position => .ok position
  | none => .error (.branch (.unlisted id))

/-- Code with the offsets of its instructions. -/
structure Layout where
  placed : List Placed
  starts : Array Nat
  index : InstructionIndex

namespace Layout

/-- Lays out instructions from offset 0 on. -/
def ofInstructions (index : InstructionIndex) (items : List Instruction) : Except Fault Layout := do
  let placed ← placeFrom 0 items
  return ⟨placed, (placed.map (·.start)).toArray, index⟩

/-- The offset at which an instruction starts. -/
def startOf (l : Layout) (id : InstrId) : Except Fault Nat := do
  let position ← l.index.position id
  return l.starts.getD position 0

/-- The displacement from the end of an instruction to a target. -/
def displacement (l : Layout) (p : Placed) (target : InstrId) : Except Fault Int := do
  let start ← l.startOf target
  return start - p.stop

/-- A displacement fits one byte. -/
def fitsByte (d : Int) : Bool :=
  -128 ≤ d && d ≤ 127

/-- The form that an instruction needs in a layout: a short branch out of reach takes its long
form, everything else stays. -/
def widen (l : Layout) (p : Placed) : Except Fault Instruction := do
  let i := p.instruction
  if i.op.isShortBranch then
    match i.operand with
    | .target target =>
      let d ← l.displacement p target
      if fitsByte d then
        return i
      else
        match i.op.longForm? with
        | some op => return { i with op }
        | none => throw (.malformed (.noLongForm i.op))
    | operand => throw (.malformed (.branchTargetExpected i.op operand))
  else
    return i

/-- The forms that the instructions of a layout need. -/
def widenAll (l : Layout) : Except Fault (List Instruction) :=
  l.placed.mapM l.widen

/-- The greatest number of passes. -/
def maxPasses : Nat := 100

/-- Widens branches until all are in reach, in at most `passes` passes. -/
def relax (index : InstructionIndex) : (passes : Nat) → List Instruction → Except Fault Layout
  | 0, _ => .error (.malformed (.layoutUnstable maxPasses))
  | passes + 1, items => do
    let layout ← ofInstructions index items
    let widened ← layout.widenAll
    if widened.map (·.op) = items.map (·.op) then
      return layout
    else
      relax index passes widened

end Layout

/-- The stable layout of a list. -/
def InstructionList.layout (l : InstructionList) : Except Fault Layout :=
  Layout.relax l.index Layout.maxPasses l.items

end HookWeave

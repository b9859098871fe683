import HookWeave.Bytes.Cursor
import HookWeave.Code.InstructionList
import HookWeave.Code.Tokens

/-!
# Decoded code

Code as bytes is a sequence of opcodes, each followed by its operand, in which branches hold
displacements and references are tokens. `DecodedBody.ofBytes` reads the instructions first, with
offsets for targets, and then turns every offset into the identity of the instruction there.
-/

namespace HookWeave

/-- An operand whose targets are still offsets. -/
inductive RawOperand where
  | resolved (operand : Operand)
  | target (offset : Nat)
  | switch (offsets : List Nat)

/-- An instruction whose targets are still offsets, and its own offset. -/
structure RawInstruction where
  offset : Nat
  op : OpCode
  operand : RawOperand

namespace RawInstruction

/-- Reads an opcode. -/
def readOpCode : Reader OpCode := do
  let first ← Reader.uint8
  if first = escapeByte then
    let second ← Reader.uint8
    match OpCode.ofExtendedByte? second with
    | some op => return op
    | none => Reader.malformed (.extendedOpcode second)
  else
    match OpCode.ofByte? first with
    | some op => return op
    | none => Reader.malformed (.opcode first)

/-- The offset that lies a displacement on from another. -/
def offsetFrom (base : Nat) (displacement : Int) : Except Fault Nat :=
  let target := base + displacement
  if 0 ≤ target ∧ target < UInt32.size then .ok target.toNat
  else .error (.malformed (.branchOffset target))

/-- Reads a token and looks up what it names. -/
def readReference {α : Type} (resolve : Token → Except Fault α) : Reader α := do
  match resolve ⟨← Reader.uint32⟩ with
  | .ok a => return a
  | .error e => throw e

/-- Reads a displacement from the end of the instruction. -/
def readTarget (displacement : Reader Int) : Reader RawOperand := do
  let d ← displacement
  match offsetFrom (← Reader.position) d with
  | .ok target => return .target target
  | .error e => throw e

/-- Reads `n` displacements from the end of the table. -/
def readTargets (stop : Nat) : Nat → Reader (List Nat)
  | 0 => return []
  | n + 1 => do
    let d ← Reader.int32
    match offsetFrom stop d.toInt with
    | .ok target => return target :: (← readTargets stop n)
    | .error e => throw e

/-- Reads a jump table, whose size is checked before its entries are read. -/
def readSwitch : Reader RawOperand := do
  let count := (← Reader.uint32).toNat
  match (← get).endAfter (4 * count) with
  | .ok stop => return .switch (← readTargets stop count)
  | .error e => throw e

/-- Reads an operand. -/
def readOperand (tokens : TokenResolver) : OperandKind → Reader RawOperand
  | .none => return .resolved .none
  | .int8 => return .resolved (.int32 (← Reader.int8).toInt32)
  | .int32 => return .resolved (.int32 (← Reader.int32))
  | .int64 => return .resolved (.int64 (← Reader.int64))
  | .float32 => return .resolved (.float32 (← Reader.uint32))
  | .float64 => return .resolved (.float64 (← Reader.uint64))
  | .arg8 => return .resolved (.arg (← Reader.uint8).toUInt16)
  | .arg16 => return .resolved (.arg (← Reader.uint16))
  | .loc8 => return .resolved (.loc (← Reader.uint8).toUInt16)
  | .loc16 => return .resolved (.loc (← Reader.uint16))
  | .branch8 => readTarget (Int8.toInt <$> Reader.int8)
  | .branch32 => readTarget (Int32.toInt <$> Reader.int32)
  | .switch => readSwitch
  | .method => return .resolved (.method (← readReference tokens.method))
  | .field => return .resolved (.field (← readReference tokens.field))
  | .type => return .resolved (.type (← readReference tokens.type))
  | .string => return .resolved (.string (← readReference tokens.string))

/-- Reads an instruction. -/
def read (tokens : TokenResolver) : Reader RawInstruction := do
  let offset ← Reader.position
  let op ← readOpCode
  let operand ← readOperand tokens op.info.kind
  return ⟨offset, op, operand⟩

/-- Reads instructions to the end of the code, but at most `n`. -/
def readAll (tokens : TokenResolver) : (n : Nat) → Reader (List RawInstruction)
  | 0 => return []
  | n + 1 => do
    if (← get).hasMore then
      let i ← read tokens
      let is ← readAll tokens n
      return i :: is
    else
      return []

/-- The operand with every target offset replaced by the instruction at it; `find` gives the
position of the instruction at an offset. -/
def resolveOperand (find : Nat → Option Nat) : RawOperand → Except Fault Operand
  | .resolved operand => .ok operand
  | .target offset => .target <$> one offset
  | .switch offsets => .switch <$> offsets.mapM one
where
  one (offset : Nat) : Except Fault InstrId :=
    match find offset with
    | some index => .ok ⟨index⟩
    | none => .error (.malformed (.branchBoundary offset))

end RawInstruction

/-- Code after reading: its instructions, the offset of each, and the size of the code. -/
structure DecodedBody where
  instructions : InstructionList
  offsets : List Nat
  size : Nat

namespace DecodedBody

/-- Reads code. An instruction takes a byte at least, so there are no more of them than bytes. -/
def ofBytes (code : Bytes) (tokens : TokenResolver) : Except Fault DecodedBody := do
  if UInt32.size ≤ code.length then
    throw (.malformed (.codeTooLarge code.length))
  let raw ← (RawInstruction.readAll tokens code.length).value code
  let offsets := raw.map (·.offset)
  let resolved ← raw.mapM fun i => do
    let operand ← RawInstruction.resolveOperand offsets.idxOf? i.operand
    return (i.op, operand)
  return ⟨.ofCode resolved, offsets, code.length⟩

/-- The instruction at an offset; none at the end of the code. -/
def instructionAt (d : DecodedBody) (offset : Nat) : Except Fault (Option InstrId) :=
  if offset = d.size then .ok none
  else
    match d.offsets.idxOf? offset with
    | some index => .ok (some ⟨index⟩)
    | none => .error (.malformed (.offsetBoundary offset))

end DecodedBody

end HookWeave

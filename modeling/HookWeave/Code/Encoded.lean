import HookWeave.Bytes.Encoding
import HookWeave.Code.Layout
import HookWeave.Code.Tokens

/-!
# Encoded code

Code as bytes is a sequence of opcodes, each followed by its operand, in which branches hold
displacements and references are tokens. `EncodedBody.ofList` checks that all targets are listed,
settles the layout and then writes the instructions in order, asking for tokens as it goes.
-/

namespace HookWeave

/-- Code after writing, and the offset of each instruction. Offsets are kept as 32-bit integers, which
those below are as long as the code has fewer than 2^32 bytes. -/
structure EncodedBody where
  code : Bytes
  starts : List (InstrId × Nat)

namespace EncodedBody

variable {σ : Type}

/-- A displacement of one byte. -/
def displacement8 (d : Int) : Except Fault Bytes :=
  if Layout.fitsByte d then .ok (Encoding.int8 (Int8.ofInt d))
  else .error (.malformed (.shortDisplacement d))

/-- A displacement of four bytes; `cause` says what to report of one that does not fit. -/
def displacement32 (cause : Int → Malformation) (d : Int) : Except Fault Bytes :=
  if -0x80000000 ≤ d ∧ d < 0x80000000 then .ok (Encoding.int32 (Int32.ofInt d))
  else .error (.malformed (cause d))

/-- The displacements of a jump table. -/
def jumpTable (l : Layout) (p : Placed) : List InstrId → Except Fault Bytes
  | [] => .ok []
  | id :: ids => do
    let d ← l.displacement p id
    let entry ← displacement32 .jumpTableDisplacement d
    let entries ← jumpTable l p ids
    return entry ++ entries

/-- The bytes of an operand. -/
def operandBytes (tokens : TokenAllocator σ) (l : Layout) (p : Placed) :
    StateT σ (Except Fault) Bytes :=
  let op := p.instruction.op
  match op.info.kind, p.instruction.operand with
  | .none, .none => return []
  | .int8, .int32 v =>
    if -128 ≤ v ∧ v ≤ 127 then return Encoding.int8 v.toInt8
    else throw (.malformed (.exceedsByte op v.toInt))
  | .int32, .int32 v => return Encoding.int32 v
  | .int64, .int64 v => return Encoding.int64 v
  | .float32, .float32 bits => return Encoding.uint32 bits
  | .float64, .float64 bits => return Encoding.uint64 bits
  | .arg8, .arg slot | .loc8, .loc slot =>
    if slot ≤ 255 then return [slot.toUInt8]
    else throw (.malformed (.exceedsByte op slot.toNat))
  | .arg16, .arg slot | .loc16, .loc slot => return Encoding.uint16 slot
  | .branch8, .target id => do
    let d ← l.displacement p id
    displacement8 d
  | .branch32, .target id => do
    let d ← l.displacement p id
    displacement32 .displacement d
  | .switch, .switch ids => do
    if UInt32.size ≤ ids.length then
      throw (.malformed .jumpTableTooLarge)
    let entries ← jumpTable l p ids
    return Encoding.uint32 (UInt32.ofNat ids.length) ++ entries
  | .method, .method m => do
    let token ← tokens.method m
    return Encoding.uint32 token.value
  | .field, .field f => do
    let token ← tokens.field f
    return Encoding.uint32 token.value
  | .type, .type t => do
    let token ← tokens.type t
    return Encoding.uint32 token.value
  | .string, .string s => do
    let token ← tokens.string s
    return Encoding.uint32 token.value
  | _, operand => throw (.malformed (.operandMismatch op operand))

/-- The bytes of instructions one after another. -/
def emit (tokens : TokenAllocator σ) (l : Layout) : List Placed → StateT σ (Except Fault) Bytes
  | [] => return []
  | p :: ps => do
    let operand ← operandBytes tokens l p
    let rest ← emit tokens l ps
    return p.instruction.op.bytes ++ (operand ++ rest)

/-- Writes a list of instructions. -/
def ofList (instructions : InstructionList) (tokens : TokenAllocator σ) :
    StateT σ (Except Fault) EncodedBody := do
  instructions.validateTargets
  let layout ← instructions.layout
  let code ← emit tokens layout layout.placed
  return ⟨code, layout.placed.map fun p => (p.instruction.id, p.start)⟩

/-- The offset of an instruction, or of the end of the code. The end is refused if it is no 32-bit integer;
the starts are such integers if it is not. -/
def offsetOf (b : EncodedBody) : Option InstrId → Except Fault Nat
  | none =>
    if b.code.length < UInt32.size then .ok b.code.length
    else .error (.malformed .bodyTooLarge)
  | some id =>
    match b.starts.lookup id with
    | some start => .ok start
    | none => .error (.branch (.unlisted id))

end EncodedBody

end HookWeave

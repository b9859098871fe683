import HookWeave.Code.OpCode
import HookWeave.Signature.Basic
import HookWeave.Text.Quoted
import HookWeave.Text.Shortest

/-!
# Instructions

Instructions in editable form: operands hold the references themselves and not tokens, and
branches name their targets by identity and not by offset. An identity stays with its instruction
while others come and go around it.
-/

namespace HookWeave

/-- The identity of an instruction within one body. -/
structure InstrId where
  val : Nat
  deriving DecidableEq, Repr, Hashable

/-- The identity in messages. -/
def InstrId.render (id : InstrId) : String :=
  "#" ++ toString id.val

/-- The operand of an instruction. Floats are bit patterns, so that operands compare bit by bit. -/
inductive Operand where
  | none
  | int32 (value : Int32)
  | int64 (value : Int64)
  | float32 (bits : UInt32)
  | float64 (bits : UInt64)
  | string (value : String)
  /-- An argument slot. -/
  | arg (slot : UInt16)
  /-- A local slot. -/
  | loc (slot : UInt16)
  | type (sig : TypeSig)
  | method (method : MethodRef)
  | field (field : FieldRef)
  /-- The target of a branch. -/
  | target (id : InstrId)
  /-- The targets of a jump table. -/
  | switch (ids : List InstrId)
  deriving DecidableEq, Repr

namespace Operand

/-- The identities that the operand names. -/
def targets : Operand → List InstrId
  | target id => [id]
  | switch ids => ids
  | _ => []

/-- The operand with the identity `old` replaced by `new` wherever it is named. -/
def retarget (old new : InstrId) : Operand → Operand
  | target id => target (if id = old then new else id)
  | switch ids => switch (ids.map fun id => if id = old then new else id)
  | operand => operand

/-- The operand in messages. -/
def render : Operand → String
  | none => ""
  | int32 v => toString v.toInt
  | int64 v => toString v.toInt
  | float32 bits => Text.binary32.render bits.toNat
  | float64 bits => Text.binary64.render bits.toNat
  | string s => Text.quoted s
  | arg slot => "arg" ++ toString slot.toNat
  | loc slot => "loc" ++ toString slot.toNat
  | type sig => sig.render
  | method m => m.render
  | field f => f.render
  | target id => id.render
  | switch ids => "(" ++ ", ".intercalate (ids.map InstrId.render) ++ ")"

end Operand

/-- An instruction of a body. -/
structure Instruction where
  id : InstrId
  op : OpCode
  operand : Operand
  deriving DecidableEq, Repr

namespace Instruction

/-- Where control goes after the instruction. -/
def flow (i : Instruction) : Flow :=
  i.op.info.flow

/-- Control never goes on to the next instruction. -/
def isTerminal (i : Instruction) : Bool :=
  i.flow.isTerminal

/-- The identities that the instruction names. -/
def targets (i : Instruction) : List InstrId :=
  i.operand.targets

/-- The instruction with the identity `old` replaced by `new` wherever its operand names it. -/
def retarget (old new : InstrId) (i : Instruction) : Instruction :=
  { i with operand := i.operand.retarget old new }

/-- The argument slot that the instruction reads, writes or takes the address of. -/
def argSlot? (i : Instruction) : Option UInt16 :=
  match i.op, i.operand with
  | .ldarg0, _ => some 0
  | .ldarg1, _ => some 1
  | .ldarg2, _ => some 2
  | .ldarg3, _ => some 3
  | .ldargShort, .arg slot | .ldarg, .arg slot => some slot
  | .ldargaShort, .arg slot | .ldarga, .arg slot => some slot
  | .stargShort, .arg slot | .starg, .arg slot => some slot
  | _, _ => none

/-- The local slot that the instruction reads, writes or takes the address of. -/
def localSlot? (i : Instruction) : Option UInt16 :=
  match i.op, i.operand with
  | .ldloc0, _ | .stloc0, _ => some 0
  | .ldloc1, _ | .stloc1, _ => some 1
  | .ldloc2, _ | .stloc2, _ => some 2
  | .ldloc3, _ | .stloc3, _ => some 3
  | .ldlocShort, .loc slot | .ldloc, .loc slot => some slot
  | .ldlocaShort, .loc slot | .ldloca, .loc slot => some slot
  | .stlocShort, .loc slot | .stloc, .loc slot => some slot
  | _, _ => none

/-- The method that the instruction names. -/
def method? (i : Instruction) : Option MethodRef :=
  match i.operand with
  | .method m => some m
  | _ => none

/-- The identity, the opcode and the operand. -/
def render (i : Instruction) : String :=
  let head := i.id.render ++ ": " ++ i.op.mnemonic
  match i.operand with
  | .none => head
  | operand => head ++ " " ++ operand.render

end Instruction

end HookWeave

import HookWeave.Code.Instruction

/-!
# Short forms

The shortest instruction for a common load or store: the opcodes that have the slot or the value
built in, then the form with an operand of one byte, then the general form.
-/

namespace HookWeave.ShortForm

/-- Loads an argument. -/
def loadArg (slot : UInt16) : OpCode × Operand :=
  if slot = 0 then (.ldarg0, .none)
  else if slot = 1 then (.ldarg1, .none)
  else if slot = 2 then (.ldarg2, .none)
  else if slot = 3 then (.ldarg3, .none)
  else if slot ≤ 255 then (.ldargShort, .arg slot)
  else (.ldarg, .arg slot)

/-- Loads a local. -/
def loadLocal (slot : UInt16) : OpCode × Operand :=
  if slot = 0 then (.ldloc0, .none)
  else if slot = 1 then (.ldloc1, .none)
  else if slot = 2 then (.ldloc2, .none)
  else if slot = 3 then (.ldloc3, .none)
  else if slot ≤ 255 then (.ldlocShort, .loc slot)
  else (.ldloc, .loc slot)

/-- Stores into a local. -/
def storeLocal (slot : UInt16) : OpCode × Operand :=
  if slot = 0 then (.stloc0, .none)
  else if slot = 1 then (.stloc1, .none)
  else if slot = 2 then (.stloc2, .none)
  else if slot = 3 then (.stloc3, .none)
  else if slot ≤ 255 then (.stlocShort, .loc slot)
  else (.stloc, .loc slot)

/-- Loads the address of a local. -/
def loadLocalAddress (slot : UInt16) : OpCode × Operand :=
  if slot ≤ 255 then (.ldlocaShort, .loc slot) else (.ldloca, .loc slot)

/-- Loads a 32-bit integer. -/
def loadInt32 (value : Int32) : OpCode × Operand :=
  if value = -1 then (.ldcI4M1, .none)
  else if value = 0 then (.ldcI4_0, .none)
  else if value = 1 then (.ldcI4_1, .none)
  else if value = 2 then (.ldcI4_2, .none)
  else if value = 3 then (.ldcI4_3, .none)
  else if value = 4 then (.ldcI4_4, .none)
  else if value = 5 then (.ldcI4_5, .none)
  else if value = 6 then (.ldcI4_6, .none)
  else if value = 7 then (.ldcI4_7, .none)
  else if value = 8 then (.ldcI4_8, .none)
  else if -128 ≤ value ∧ value ≤ 127 then (.ldcI4Short, .int32 value)
  else (.ldcI4, .int32 value)

end HookWeave.ShortForm

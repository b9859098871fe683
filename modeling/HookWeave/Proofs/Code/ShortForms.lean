import HookWeave.Code.ShortForm
import HookWeave.Code.StackDepth
import Mathlib.Tactic.SplitIfs
import Mathlib.Tactic.Lemma

/-!
# Pieces of code

Short forms go on to the next instruction and name none. Loads push one value and stores take one.
-/

namespace HookWeave

/-- An instruction of a piece of code, under an identity. -/
def Instruction.ofCode (id : InstrId) (c : OpCode × Operand) : Instruction :=
  ⟨id, c.1, c.2⟩

/-- The code goes on to the next instruction and names none. -/
structure Plain (c : OpCode × Operand) : Prop where
  flow : c.1.info.flow = .next
  targets : c.2.targets = []

namespace ShortForm

variable (slot : UInt16)

lemma plain_loadArg : Plain (loadArg slot) := by
  unfold loadArg
  split_ifs <;> exact ⟨rfl, rfl⟩

lemma plain_loadLocal : Plain (loadLocal slot) := by
  unfold loadLocal
  split_ifs <;> exact ⟨rfl, rfl⟩

lemma plain_storeLocal : Plain (storeLocal slot) := by
  unfold storeLocal
  split_ifs <;> exact ⟨rfl, rfl⟩

lemma plain_loadLocalAddress : Plain (loadLocalAddress slot) := by
  unfold loadLocalAddress
  split_ifs <;> exact ⟨rfl, rfl⟩

variable (returnsValue : Bool) (id : InstrId)

lemma stackEffect_loadArg :
    (Instruction.ofCode id (loadArg slot)).stackEffect returnsValue = .ok ⟨0, 1⟩ := by
  unfold loadArg
  split_ifs <;> rfl

lemma stackEffect_loadLocal :
    (Instruction.ofCode id (loadLocal slot)).stackEffect returnsValue = .ok ⟨0, 1⟩ := by
  unfold loadLocal
  split_ifs <;> rfl

lemma stackEffect_storeLocal :
    (Instruction.ofCode id (storeLocal slot)).stackEffect returnsValue = .ok ⟨1, 0⟩ := by
  unfold storeLocal
  split_ifs <;> rfl

lemma stackEffect_loadLocalAddress :
    (Instruction.ofCode id (loadLocalAddress slot)).stackEffect returnsValue = .ok ⟨0, 1⟩ := by
  unfold loadLocalAddress
  split_ifs <;> rfl

end ShortForm

/-- An operand that names no instruction stays when targets are replaced. -/
lemma Operand.retarget_eq_self {operand : Operand} {old new : InstrId} (h : operand.targets = []) :
    operand.retarget old new = operand := by
  cases operand with
  | target id => cases h
  | switch ids =>
    cases h
    rfl
  | _ => rfl

end HookWeave

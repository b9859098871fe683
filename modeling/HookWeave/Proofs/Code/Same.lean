import HookWeave.Code.Body
import HookWeave.Proofs.Code.Lists
import Mathlib.Data.List.Forall2

/-!
# The same code under other identities

Two lists hold the same code if they agree instruction by instruction, where targets are compared by
the position of what they name (`InstructionList.SameCode`). A short branch may stand in its long
form in the second.
-/

namespace HookWeave

/-- The same operand, with targets that correspond by a relation. -/
def Operand.SameBy (r : InstrId → InstrId → Prop) : Operand → Operand → Prop
  | target a, target b => r a b
  | switch as, switch bs => List.Forall₂ r as bs
  | v, w => v = w

/-- The same opcode or its long form, and the same operand. -/
structure Instruction.SameBy (r : InstrId → InstrId → Prop) (i j : Instruction) : Prop where
  op : j.op = i.op ∨ i.op.longForm? = some j.op
  operand : i.operand.SameBy r j.operand

namespace InstructionList

/-- Two identities name instructions at one position of two lists. -/
def SamePosition (l m : InstructionList) (a b : InstrId) : Prop :=
  ∃ k, l.position? a = some k ∧ m.position? b = some k

/-- Two lists agree instruction by instruction, with targets at the same positions. -/
def SameCode (l m : InstructionList) : Prop :=
  List.Forall₂ (Instruction.SameBy (l.SamePosition m)) l.items m.items

end InstructionList

variable {r t : InstrId → InstrId → Prop} {v w : Operand}

/-- An operand without targets is the same as itself. -/
lemma Operand.sameBy_self (h : v.targets = []) : v.SameBy r v := by
  cases v with
  | target id => cases h
  | switch ids =>
    cases h
    exact .nil
  | _ => rfl

/-- Operands stay the same when more targets correspond. -/
lemma Operand.SameBy.imp (h : v.SameBy r w) (weaker : ∀ a b, r a b → t a b) : v.SameBy t w := by
  cases v with
  | target a =>
    cases w with
    | target b => exact weaker a b h
    | _ => cases h
  | switch as =>
    cases w with
    | switch bs => exact List.Forall₂.imp weaker h
    | _ => cases h
  | _ => cases w <;> exact h

end HookWeave

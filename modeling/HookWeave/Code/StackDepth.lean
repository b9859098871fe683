import HookWeave.Code.Layout

/-!
# Depth of the evaluation stack

Every instruction of a body must be reached with one depth of the evaluation stack, whichever path
leads to it. `InstructionList.maxStack` follows all paths from the first instruction and from the
handlers, and gives the greatest depth on the way.
-/

namespace HookWeave

/-- What an instruction does to the depth of the stack: how many values it takes, and how many it
leaves. -/
structure StackEffect where
  pops : Nat
  pushes : Nat

/-- The stack effect of an instruction in a method that returns a value or does not. -/
def Instruction.stackEffect (returnsValue : Bool) (i : Instruction) : Except Fault StackEffect :=
  match i.op with
  | .call | .callvirt =>
    match i.method? with
    | some m => .ok ⟨m.sig.argCount, (!m.sig.ret.isVoid).toNat⟩
    | none => .error (.malformed (.methodOperandMissing i.op))
  | .newobj =>
    match i.method? with
    | some m => .ok ⟨m.sig.params.length, 1⟩
    | none => .error (.malformed (.methodOperandMissing i.op))
  | .ret => .ok ⟨returnsValue.toNat, 0⟩
  | op => .ok ⟨op.info.pops, op.info.pushes⟩

/-- A way of entering an instruction: its position, and the depth on arrival. -/
structure Arrival where
  position : Nat
  depth : Nat
  deriving DecidableEq, Repr

namespace StackDepth

/-- The arrivals at the targets of an instruction. -/
def atTargets (index : InstructionIndex) (depth : Nat) (ids : List InstrId) :
    Except Fault (List Arrival) :=
  ids.mapM fun id => return ⟨← index.position id, depth⟩

/-- Where control arrives after an instruction at a position, in the order of discovery. -/
def successors (index : InstructionIndex) (i : Instruction) (position depth : Nat) :
    Except Fault (List Arrival) :=
  match i.flow with
  | .next | .call => .ok [⟨position + 1, depth⟩]
  | .conditional | .switch => do
    let targets ← atTargets index depth i.targets
    return targets ++ [⟨position + 1, depth⟩]
  | .jump => atTargets index depth i.targets
  | .leave => atTargets index 0 i.targets
  | .ret | .throw | .endFinally => .ok []

/-- The depths known so far, by position, and the greatest depth seen. -/
structure Known where
  depths : Array (Option Nat)
  greatest : Nat

/-- The depth before an instruction and the one after it. -/
def step (returnsValue : Bool) (i : Instruction) (depth : Nat) : Except Fault Nat := do
  let effect ← i.stackEffect returnsValue
  if depth < effect.pops then
    throw (.malformed (.stackUnderflow i depth effect.pops))
  return depth - effect.pops + effect.pushes

theorem count_none_set_lt {depths : Array (Option Nat)} {p : Nat} (hp : p < depths.size)
    (h : depths[p] = none) (d : Nat) :
    (depths.set p (some d)).count none < depths.count none := by
  have : 0 < depths.count none := Array.count_pos_iff.2 (h ▸ Array.getElem_mem hp)
  rw [Array.count_set, h]
  exact Nat.lt_of_le_of_lt (Nat.le_refl (depths.count none - 1)) (Nat.sub_lt this Nat.one_pos)

/-- Follows every path from the arrivals on the worklist, the latest first. An arrival at an
instruction whose depth is known ends there; one with another depth is a fault. -/
def explore (returnsValue : Bool) (index : InstructionIndex) (items : Array Instruction)
    (known : Known) : List Arrival → Except Fault Known
  | [] => .ok known
  | a :: worklist =>
    if hi : a.position < items.size then
      let i := items[a.position]
      if hd : a.position < known.depths.size then
        match h : known.depths[a.position] with
        | some depth =>
          if depth = a.depth then explore returnsValue index items known worklist
          else .error (.malformed (.inconsistentDepth i depth a.depth))
        | none =>
          match step returnsValue i a.depth with
          | .error e => .error e
          | .ok after =>
            match successors index i a.position after with
            | .error e => .error e
            | .ok next =>
              explore returnsValue index items
                ⟨known.depths.set a.position (some a.depth),
                  max (max known.greatest a.depth) after⟩
                (next.reverse ++ worklist)
      else .error (.malformed .pastEnd)
    else .error (.malformed .pastEnd)
termination_by worklist => (known.depths.count none, worklist.length)
decreasing_by
  · exact Prod.Lex.right _ (by simp)
  · exact Prod.Lex.left _ _ (count_none_set_lt hd h _)

end StackDepth

/-- The greatest depth of the evaluation stack. Besides the first instruction, the handlers in
`entries` are entered with the depth given there. -/
def InstructionList.maxStack (l : InstructionList) (entries : List (InstrId × Nat))
    (returnsValue : Bool) : Except Fault Nat := do
  if l.isEmpty then
    return 0
  let index := l.index
  let handlers ← entries.mapM fun e => return (⟨← index.position e.1, e.2⟩ : Arrival)
  let known ← StackDepth.explore returnsValue index l.items.toArray
    ⟨Array.replicate l.size none, 0⟩ (handlers.reverse ++ [⟨0, 0⟩])
  if known.greatest < UInt16.size then
    return known.greatest
  else
    throw (.malformed (.stackTooDeep known.greatest))

end HookWeave

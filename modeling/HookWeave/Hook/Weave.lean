import HookWeave.Code.Body
import HookWeave.Code.ShortForm
import HookWeave.Hook.Fit

/-!
# Weaving hooks

A hook that runs after its target is called in place of the target's last return: the target's
result is dropped, the target's arguments are loaded, the hook is called, and its result is
returned. Branches to the old return go to the first of these instructions.

A hook that runs before its target is called ahead of the target's first instruction. Where it
takes the result, or may skip a target that has one, a new local holds the result; if the result
is an address, the local holds the address of a fresh cell. A hook that gives a truth value skips
the target by giving false. Branches to the target's first instruction still go there.
-/

namespace HookWeave

/-- The type holds truth values: it is the built-in one or named so, in any mix of cases. -/
def TypeSig.isBoolean : TypeSig → Bool
  | .prim .bool => true
  | .refType t | .valueType t => t.name.toLower = "boolean"
  | _ => false

namespace Weaving

/-- A piece of code, not yet part of a body. -/
abbrev Code := List (OpCode × Operand)

/-- The body of the target. -/
def body (w : Weaving) : Except Fault MethodBody :=
  match w.target.body with
  | some body => .ok body
  | none => .error (.bodyMissing w.targetName)

/-- The slot of an argument. -/
def argumentSlot (w : Weaving) (position : Nat) : Except Fault UInt16 :=
  if position < UInt16.size then .ok (UInt16.ofNat position)
  else .error (.argumentOutOfRange w.targetName position)

/-- Loads the address of the result, which is in a local or is what the local holds. -/
def loadResult (w : Weaving) (result : UInt16) : OpCode × Operand :=
  if w.target.ret.isByRef then ShortForm.loadLocal result else ShortForm.loadLocalAddress result

/-- Loads what the hook's parameters take: the result where there is a local for it, and else the
next argument of the target from `position` on. -/
def loads (w : Weaving) (result : Option UInt16) : Nat → List Parameter → Except Fault Code
  | _, [] => .ok []
  | position, p :: params => do
    match result.filter fun _ => w.takesResult p with
    | some slot =>
      return w.loadResult slot :: (← w.loads result position params)
    | none =>
      let slot ← w.argumentSlot position
      return ShortForm.loadArg slot :: (← w.loads result (position + 1) params)

/-- Calls the hook. -/
def call (w : Weaving) : OpCode × Operand :=
  (.call, .method w.request.hook)

/-- The body with the depth of its stack computed anew, which fails if the stack does not
balance. -/
def balanced (w : Weaving) (body : MethodBody) : Except Fault MethodBody :=
  (body.updateMaxStack w.target.returnsValue).mapError (.bodyUnbalanced w.targetName)

/-! ## After the target -/

/-- What takes the place of the target's last return. -/
def epilogue (w : Weaving) : Except Fault Code := do
  let drop : Code := if w.target.returnsValue then [(.pop, .none)] else []
  let loads ← w.loads none 0 w.request.hookParams
  return drop ++ loads ++ [w.call, (.ret, .none)]

/-- The body with the hook called after it. -/
def bodyAfter (w : Weaving) : Except Fault MethodBody := do
  let body ← w.body
  match body.instructions.last?.filter (·.op = .ret) with
  | none => throw (.bodyEndsWithoutReturn w.targetName)
  | some last =>
    let code ← w.epilogue
    let longer := { body with instructions := body.instructions.pushAll code }
    w.balanced (← longer.apply (MethodBody.removeInstruction last.id))

/-! ## Before the target -/

/-- The hook may skip the target. -/
def maySkip (w : Weaving) : Bool :=
  w.request.hook.sig.ret.isBoolean

/-- The hook takes the result. -/
def usesResult (w : Weaving) : Bool :=
  w.request.hookParams.any w.takesResult

/-- Makes a local for a result that is an address hold the address of a fresh cell. -/
def makeResult (w : Weaving) (result : UInt16) : Code :=
  match w.target.ret.target? with
  | some element => [
      ShortForm.loadInt32 1, (.newarr, .type element),
      ShortForm.loadInt32 0, (.ldelema, .type element),
      ShortForm.storeLocal result]
  | none => []

/-- Does what the hook's result asks for: goes on to the target or returns the result in the
local. -/
def dispatch (w : Weaving) (result : Option UInt16) (first : InstrId) : Code :=
  if w.maySkip then
    (.brtrueShort, .target first) :: (result.map ShortForm.loadLocal).toList ++ [(.ret, .none)]
  else if w.request.hook.sig.ret.isVoid then []
  else [(.pop, .none)]

/-- What runs ahead of the target's first instruction. -/
def prologue (w : Weaving) (result : Option UInt16) (first : InstrId) : Except Fault Code := do
  let loads ← w.loads result 0 w.request.hookParams
  return (result.map w.makeResult).getD [] ++ loads ++ w.call :: w.dispatch result first

/-- The body with a local for the result, if the hook has a use for one. -/
def withResult (w : Weaving) (body : MethodBody) :
    Except Fault (Option UInt16 × MethodBody) := do
  if w.usesResult && !w.target.returnsValue then
    w.misfit (.resultOnVoid w.conventions.resultParameter)
  if w.usesResult || (w.maySkip && w.target.returnsValue) then
    let (slot, body) ← body.addLocal w.target.ret
    return (some slot, body)
  else
    return (none, body)

/-- The body with the hook called before it. -/
def bodyBefore (w : Weaving) : Except Fault MethodBody := do
  let body ← w.body
  match body.instructions.first? with
  | none => throw (.bodyEmpty w.targetName)
  | some first =>
    let (result, body) ← w.withResult body
    let code ← w.prologue result first.id
    let insert := code.forM fun c => discard (InstructionList.insertBefore first.id c.1 c.2)
    w.balanced (← body.apply (MethodBody.editInstructions insert))

/-! ## The target woven -/

/-- The target with the hook woven into it. That the hook fits is checked on demand; that the
stack balances is checked in any case. -/
def weave (w : Weaving) (verify : Bool) : Except Fault MethodDeclaration := do
  if verify then
    w.check
  let body ←
    match w.request.kind with
    | .before => w.bodyBefore
    | .after => w.bodyAfter
  return { w.target with body := some body }

end Weaving

end HookWeave

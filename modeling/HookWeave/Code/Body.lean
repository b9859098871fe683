import HookWeave.Code.StackDepth

/-!
# Method bodies

The locals, the instructions and the exception clauses of a method. Clauses name their boundaries
by identity, so edits of the instructions leave them in place; removing an instruction moves the
boundaries at it to the instruction after it.
-/

namespace HookWeave

/-- An exception clause: a protected region and its handler, each from its first instruction to
the one behind its last, or to the end of the body. -/
structure ExceptionClause where
  flags : UInt16
  tryStart : InstrId
  tryEnd : Option InstrId
  handlerStart : InstrId
  handlerEnd : Option InstrId
  catchType : Option TypeRef
  deriving DecidableEq, Repr

namespace ExceptionClause

/-- The flags of a clause that catches exceptions of a type. -/
def catchFlags : UInt16 := 0

/-- The flags of a clause that runs however its region is left. -/
def finallyFlags : UInt16 := 2

/-- The flags of a clause that runs if its region is left by an exception. -/
def faultFlags : UInt16 := 4

/-- The depth of the stack on entry of the handler, which holds the exception that is caught. -/
def entryDepth (c : ExceptionClause) : Nat :=
  if c.flags = catchFlags then 1 else 0

/-- A region or a handler starts at the instruction. -/
def startsAt (c : ExceptionClause) (id : InstrId) : Bool :=
  c.tryStart = id || c.handlerStart = id

/-- Moves the boundaries at one instruction to another, or to the end of the body. A start cannot
move to the end. -/
def retarget (old : InstrId) (new : Option InstrId) (c : ExceptionClause) : ExceptionClause :=
  let start (id : InstrId) := if id = old then new.getD id else id
  let stop (id : Option InstrId) := if id = some old then new else id
  { c with
    tryStart := start c.tryStart
    tryEnd := stop c.tryEnd
    handlerStart := start c.handlerStart
    handlerEnd := stop c.handlerEnd }

end ExceptionClause

/-- The body of a method. -/
structure MethodBody where
  maxStack : UInt16
  /-- The locals hold zeros on entry. -/
  initLocals : Bool
  locals : List TypeSig
  instructions : InstructionList
  clauses : List ExceptionClause
  deriving DecidableEq

namespace MethodBody

/-- A body of instructions alone. -/
def ofInstructions (instructions : InstructionList) : MethodBody :=
  ⟨0, false, [], instructions, []⟩

/-- The body without instructions. -/
def empty : MethodBody :=
  ofInstructions .empty

/-- The greatest number of locals, whose slots are 16-bit integers. -/
def maxLocals : Nat := UInt16.size

/-- Adds a local and gives its slot. -/
def addLocal (b : MethodBody) (type : TypeSig) : Except Fault (UInt16 × MethodBody) :=
  let slot := b.locals.length
  if slot < maxLocals then
    .ok (UInt16.ofNat slot, { b with locals := b.locals ++ [type], initLocals := true })
  else .error (.malformed .tooManyLocals)

/-- The handlers, each with the depth of the stack on entry. -/
def handlerEntries (b : MethodBody) : List (InstrId × Nat) :=
  b.clauses.map fun c => (c.handlerStart, c.entryDepth)

/-- The body with its greatest depth of the stack computed anew. -/
def updateMaxStack (b : MethodBody) (returnsValue : Bool) : Except Fault MethodBody := do
  let depth ← b.instructions.maxStack b.handlerEntries returnsValue
  return { b with maxStack := UInt16.ofNat depth }

/-! ## Edits that can fail -/

/-- An edit of a body. What it did before it fails stays done. -/
abbrev Edit := EStateM Fault MethodBody

/-- The body after an edit that went well. -/
def apply {α : Type} (b : MethodBody) (edit : Edit α) : Except Fault MethodBody :=
  match edit b with
  | .ok _ b => .ok b
  | .error e _ => .error e

/-- An edit of the instructions alone. -/
def editInstructions {α : Type} (edit : InstructionList.Edit α) : Edit α := fun b =>
  match edit b.instructions with
  | .ok a l => .ok a { b with instructions := l }
  | .error e l => .error e { b with instructions := l }

/-- Takes an instruction out of the body. Branches to it and clauses that start or stop at it move
to the instruction after it. The last instruction stays if a branch goes there or a clause starts
there. -/
def removeInstruction (id : InstrId) : Edit Instruction := do
  let b ← get
  let next := b.instructions.successor? id
  if next.isNone && b.clauses.any (·.startsAt id) then
    throw (.branch (.clauseWithoutSuccessor id))
  let removed ← editInstructions (InstructionList.remove id)
  modify fun b => { b with clauses := b.clauses.map (·.retarget id next) }
  return removed

end MethodBody

end HookWeave

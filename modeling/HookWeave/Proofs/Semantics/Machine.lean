import HookWeave.Hook.Weave
import Mathlib.Data.List.Basic

/-!
# Running bodies

A small-step semantics of method bodies over any machine. What is the same on every machine is
fixed: variables are loaded and stored, constants are loaded, values are dropped, control branches
on a truth value, leaves a region and returns. For everything else the machine gives the outcomes
(`Machine.exec`), which are held to the stack effect and the flow of the instruction, and says which
handler runs next (`Machine.route`). Variables are cells of the memory, so that what is reached
through their addresses is a part of it, and the instructions that it executes show the machine no
identities.

A body goes wrong where it has no meaning: where control leaves its instructions, values or
variables are missing, or a clause has a boundary that is not listed.
-/

namespace HookWeave

/-- A call of a method, with the arguments in the order in which they were pushed. -/
structure Call (Value : Type) where
  method : MethodRef
  arguments : List Value

/-- How an instruction lies with respect to an exception clause: in the region that it protects, or
in its handler. -/
structure Coverage where
  flags : UInt16
  catchType : Option TypeRef
  guarded : Bool
  handling : Bool
  deriving DecidableEq

/-- What makes a machine consult the exception clauses. -/
inductive Cause (Value : Type) where
  /-- Control leaves for an instruction that lies like this. -/
  | leave (target : List Coverage)
  | raise (exception : Value)
  | endFinally

/-- Where exception clauses send control. -/
inductive Verdict (Value : Type) where
  /-- To the handler of a clause, with what it finds on the stack. -/
  | enter (clause : Nat) (entry : List Value)
  /-- To a target that control was to leave for, the latest being the first. -/
  | resume (n : Nat)
  /-- Out of the method. -/
  | escape (exception : Value)

/-- What an instruction that the machine executes may do. What it pushes has the top first. -/
inductive Outcome (Value Memory : Type) where
  | next (pushed : List Value) (memory : Memory)
  /-- Control goes to one of the targets. -/
  | jump (n : Nat) (pushed : List Value) (memory : Memory)
  | raise (exception : Value) (memory : Memory)

/-- What bodies run on. -/
structure Machine where
  Value : Type
  Memory : Type
  /-- What holds an argument or a local. -/
  Cell : Type
  /-- What is kept about handlers that were entered. -/
  Control : Type
  load : Memory → Cell → Value
  store : Memory → Cell → Value → Memory
  address : Cell → Value
  int32 : Int32 → Value
  isTrue : Value → Bool
  /-- The outcomes of an instruction on the values that it takes, the top of the stack first. -/
  exec : OpCode → Operand → List Value → Control → Memory → Outcome Value Memory → Prop
  /-- Where the clauses about an instruction may send control. -/
  route : Control → Cause Value → List Coverage → Memory → Verdict Value → Control → Prop

/-- A body that runs for a method, and its variables. -/
structure Activation (M : Machine) where
  body : MethodBody
  returnsValue : Bool
  args : List M.Cell
  locals : List M.Cell

/-- What changes while a body runs, apart from where it stands. -/
structure State (M : Machine) where
  here : InstrId
  /-- The top first. -/
  stack : List M.Value
  control : M.Control
  /-- The targets that control was to leave for, the latest first. -/
  left : List InstrId
  memory : M.Memory

/-- How far a run has come. -/
inductive Configuration (M : Machine) where
  | running (s : State M)
  | returned (values : List M.Value) (memory : M.Memory)
  | escaped (exception : M.Value) (memory : M.Memory)
  | wrong

/-- The state on entry at an instruction. -/
def State.start {M : Machine} (here : InstrId) (control : M.Control) (memory : M.Memory) : State M :=
  ⟨here, [], control, [], memory⟩

/-! ## Regions -/

/-- The position of the boundary behind a region, which may be the end of the body. -/
def InstructionList.boundary? (l : InstructionList) : Option InstrId → Option Nat
  | none => some l.size
  | some id => l.position? id

/-- How the instruction at a position lies with respect to the clause, if its boundaries are listed.
-/
def ExceptionClause.coverage? (l : InstructionList) (position : Nat) (c : ExceptionClause) :
    Option Coverage := do
  let tryStart ← l.position? c.tryStart
  let tryEnd ← l.boundary? c.tryEnd
  let handlerStart ← l.position? c.handlerStart
  let handlerEnd ← l.boundary? c.handlerEnd
  return ⟨c.flags, c.catchType, tryStart ≤ position ∧ position < tryEnd,
    handlerStart ≤ position ∧ position < handlerEnd⟩

/-- How an instruction lies with respect to every clause, if it is listed and their boundaries are.
-/
def MethodBody.coverage? (b : MethodBody) (id : InstrId) : Option (List Coverage) := do
  let position ← b.instructions.position? id
  b.clauses.mapM (·.coverage? b.instructions position)

/-! ## Instructions -/

/-- What is done in the same way on every machine. -/
inductive Routine where
  | load | store | address
  | constant (value : Int32)
  | discard | branchIfTrue
  | ret | leave | endFinally

namespace Instruction

/-- The integer that the instruction loads. -/
def constant? (i : Instruction) : Option Int32 :=
  match i.op, i.operand with
  | .ldcI4M1, _ => some (-1)
  | .ldcI4_0, _ => some 0
  | .ldcI4_1, _ => some 1
  | .ldcI4_2, _ => some 2
  | .ldcI4_3, _ => some 3
  | .ldcI4_4, _ => some 4
  | .ldcI4_5, _ => some 5
  | .ldcI4_6, _ => some 6
  | .ldcI4_7, _ => some 7
  | .ldcI4_8, _ => some 8
  | .ldcI4Short, .int32 value | .ldcI4, .int32 value => some value
  | _, _ => none

/-- The routine that the instruction is, unless the machine executes it. -/
def routine? (i : Instruction) : Option Routine :=
  match i.op with
  | .ldarg0 | .ldarg1 | .ldarg2 | .ldarg3 | .ldargShort | .ldarg
  | .ldloc0 | .ldloc1 | .ldloc2 | .ldloc3 | .ldlocShort | .ldloc => some .load
  | .stargShort | .starg
  | .stloc0 | .stloc1 | .stloc2 | .stloc3 | .stlocShort | .stloc => some .store
  | .ldargaShort | .ldarga | .ldlocaShort | .ldloca => some .address
  | .pop => some .discard
  | .brtrueShort | .brtrue => some .branchIfTrue
  | .ret => some .ret
  | .leaveShort | .leave => some .leave
  | .endfinally => some .endFinally
  | _ => i.constant?.map .constant

/-- The operand without the identities that it names. -/
def shown (i : Instruction) : Operand :=
  match i.operand with
  | .target _ => .target ⟨0⟩
  | .switch ids => .switch (ids.map fun _ => ⟨0⟩)
  | operand => operand

end Instruction

/-- What an instruction does to an activation, short of where it sends control. -/
inductive Turn (M : Machine) where
  | next (stack : List M.Value) (memory : M.Memory)
  /-- Control goes to one of the targets. -/
  | jump (n : Nat) (stack : List M.Value) (memory : M.Memory)
  | leave
  | ret (values : List M.Value)
  | raise (exception : M.Value) (memory : M.Memory)
  | endFinally
  | wrong

variable {M : Machine}

/-- What an outcome comes to for an instruction of some flow that pushes some number of values. No
machine makes an instruction do what its flow or its stack effect rules out. -/
def Outcome.turn? (flow : Flow) (pushes : Nat) (rest : List M.Value) :
    Outcome M.Value M.Memory → Option (Turn M)
  | .next pushed memory =>
    if pushed.length = pushes ∧ !flow.isTerminal then some (.next (pushed ++ rest) memory) else none
  | .jump n pushed memory =>
    if pushed.length = pushes ∧ flow ∈ [.conditional, .switch, .jump] then
      some (.jump n (pushed ++ rest) memory)
    else none
  | .raise exception memory => some (.raise exception memory)

namespace Activation

variable (a : Activation M)

/-- The cell of the variable that an instruction names. -/
def cell? (i : Instruction) : Option M.Cell :=
  match i.argSlot?, i.localSlot? with
  | some slot, _ => a.args[slot.toNat]?
  | none, some slot => a.locals[slot.toNat]?
  | none, none => none

/-- What a routine does. -/
def turn (i : Instruction) (s : State M) : Routine → Turn M
  | .load =>
    match a.cell? i with
    | some cell => .next (M.load s.memory cell :: s.stack) s.memory
    | none => .wrong
  | .store =>
    match a.cell? i, s.stack with
    | some cell, value :: stack => .next stack (M.store s.memory cell value)
    | _, _ => .wrong
  | .address =>
    match a.cell? i with
    | some cell => .next (M.address cell :: s.stack) s.memory
    | none => .wrong
  | .constant value => .next (M.int32 value :: s.stack) s.memory
  | .discard =>
    match s.stack with
    | _ :: stack => .next stack s.memory
    | [] => .wrong
  | .branchIfTrue =>
    match s.stack with
    | value :: stack => if M.isTrue value then .jump 0 stack s.memory else .next stack s.memory
    | [] => .wrong
  | .ret =>
    if s.stack.length < a.returnsValue.toNat then .wrong
    else .ret (s.stack.take a.returnsValue.toNat)
  | .leave => .leave
  | .endFinally => .endFinally

/-- What an instruction may do in a state. -/
def Does (i : Instruction) (s : State M) (t : Turn M) : Prop :=
  match i.routine? with
  | some routine => t = a.turn i s routine
  | none =>
    match i.stackEffect a.returnsValue with
    | .error _ => t = .wrong
    | .ok effect =>
      if s.stack.length < effect.pops then t = .wrong
      else ∃ outcome : Outcome M.Value M.Memory,
        M.exec i.op i.shown (s.stack.take effect.pops) s.control s.memory outcome
          ∧ outcome.turn? i.flow effect.pushes (s.stack.drop effect.pops) = some t

/-- The call that an instruction makes in a state. -/
def calls (i : Instruction) (s : State M) : List (Call M.Value) :=
  match i.flow, i.method?, i.stackEffect a.returnsValue with
  | .call, some method, .ok effect =>
    if s.stack.length < effect.pops then [] else [⟨method, (s.stack.take effect.pops).reverse⟩]
  | _, _, _ => []

/-! ## Steps -/

/-- Where a verdict leads. A handler is entered only from the region that its clause protects, with
as many values as the clause puts on the stack. -/
inductive Follows (s : State M) (coverage : List Coverage) (control : M.Control) :
    Verdict M.Value → Configuration M → Prop where
  | enter {k : Nat} {entry : List M.Value} {clause : ExceptionClause}
      (found : a.body.clauses[k]? = some clause)
      (guarded : (coverage[k]?.map (·.guarded)) = some true)
      (depth : entry.length = clause.entryDepth) :
      Follows s coverage control (.enter k entry)
        (.running ⟨clause.handlerStart, entry, control, s.left, s.memory⟩)
  | resume {n : Nat} {target : InstrId} (found : s.left[n]? = some target) :
      Follows s coverage control (.resume n) (.running ⟨target, [], control, s.left, s.memory⟩)
  | escape {exception : M.Value} :
      Follows s coverage control (.escape exception) (.escaped exception s.memory)

/-- The clauses about the instruction at which a state stands send control somewhere. -/
def Routes (s : State M) (cause : Cause M.Value) (c : Configuration M) : Prop :=
  match a.body.coverage? s.here with
  | none => c = .wrong
  | some coverage => ∃ verdict control,
      M.route s.control cause coverage s.memory verdict control
        ∧ a.Follows s coverage control verdict c

/-- Where what an instruction does leads. -/
inductive Lands (i : Instruction) (s : State M) : Turn M → Configuration M → Prop where
  | next {stack : List M.Value} {memory : M.Memory} {id : InstrId}
      (found : a.body.instructions.successor? i.id = some id) :
      Lands i s (.next stack memory) (.running ⟨id, stack, s.control, s.left, memory⟩)
  | pastEnd {stack : List M.Value} {memory : M.Memory}
      (none : a.body.instructions.successor? i.id = none) :
      Lands i s (.next stack memory) .wrong
  | jump {n : Nat} {stack : List M.Value} {memory : M.Memory} {id : InstrId}
      (found : i.targets[n]? = some id) (listed : a.body.instructions.contains id) :
      Lands i s (.jump n stack memory) (.running ⟨id, stack, s.control, s.left, memory⟩)
  | stray {n : Nat} {stack : List M.Value} {memory : M.Memory}
      (unlisted : ∀ id, i.targets[n]? = some id → ¬ a.body.instructions.contains id) :
      Lands i s (.jump n stack memory) .wrong
  | leave {id : InstrId} {target : List Coverage} {c : Configuration M}
      (found : i.targets[0]? = some id) (covered : a.body.coverage? id = some target)
      (routed : a.Routes { s with left := id :: s.left } (.leave target) c) :
      Lands i s .leave c
  | lost (uncovered : ∀ id, i.targets[0]? = some id → a.body.coverage? id = none) :
      Lands i s .leave .wrong
  | ret {values : List M.Value} : Lands i s (.ret values) (.returned values s.memory)
  | raise {exception : M.Value} {memory : M.Memory} {c : Configuration M}
      (routed : a.Routes { s with memory := memory } (.raise exception) c) :
      Lands i s (.raise exception memory) c
  | endFinally {c : Configuration M} (routed : a.Routes s .endFinally c) : Lands i s .endFinally c
  | wrong : Lands i s .wrong .wrong

/-- A step of a run, with the call that it makes. -/
inductive Step (s : State M) : List (Call M.Value) → Configuration M → Prop where
  | execute {i : Instruction} {t : Turn M} {c : Configuration M}
      (found : a.body.instructions.get? s.here = some i) (does : a.Does i s t)
      (lands : a.Lands i s t c) : Step s (a.calls i s) c
  | lost (none : a.body.instructions.get? s.here = none) : Step s [] .wrong

/-- The activation is one of a method: there is a cell for every argument and for every local. -/
structure Of (a : Activation M) (m : MethodDeclaration) : Prop where
  body : m.body = some a.body
  returnsValue : a.returnsValue = m.returnsValue
  args : a.args.length = m.argCount
  locals : a.locals.length = a.body.locals.length

variable {a} {s : State M} {cause : Cause M.Value} {c : Configuration M}

/-- Where the boundaries of all clauses are listed, a verdict on them is followed. -/
lemma routes_iff {coverage : List Coverage} (covered : a.body.coverage? s.here = some coverage) :
    a.Routes s cause c ↔ ∃ verdict control,
      M.route s.control cause coverage s.memory verdict control
        ∧ a.Follows s coverage control verdict c := by
  rw [Routes, covered]

/-- Where some boundary is not listed, nothing can be sent anywhere. -/
lemma routes_uncovered (uncovered : a.body.coverage? s.here = none) :
    a.Routes s cause c ↔ c = .wrong := by
  rw [Routes, uncovered]

end Activation

/-- A run from a configuration by steps of some kind, with the calls that it makes. -/
inductive Run (step : State M → List (Call M.Value) → Configuration M → Prop)
    (start : Configuration M) : List (Call M.Value) → Configuration M → Prop where
  | refl : Run step start [] start
  | snoc {s : State M} {trace calls : List (Call M.Value)} {c : Configuration M}
      (before : Run step start trace (.running s)) (last : step s calls c) :
      Run step start (trace ++ calls) c

namespace Example

/-- The body of a method that gives back its argument. -/
def priceBody : MethodBody :=
  .ofInstructions (.ofCode [(.ldarg0, .none), (.ret, .none)])

/-- A method that gives back its argument. -/
def price : MethodDeclaration :=
  ⟨"Price", 0x0016, [⟨"amount", .prim .int32⟩], .prim .int32, [], some priceBody⟩

/-- A machine on integers. Calls double their argument if they have one. Otherwise they leave 7 at
the address on top of the stack and answer no. -/
def till : Machine where
  Value := Int
  Memory := List Int
  Cell := Nat
  Control := Unit
  load memory cell := memory.getD cell 0
  store memory cell value := memory.set cell value
  address cell := cell
  int32 value := value.toInt
  isTrue value := value ≠ 0
  exec op _ taken _ memory outcome := op = .call ∧ outcome = match taken with
    | [] => .next [] memory
    | [amount] => .next [2 * amount] memory
    | address :: _ => .next [0] (memory.set address.toNat 7)
  route _ _ _ _ _ _ := False

/-- A body that runs with its argument in the first cell. -/
def atTill (body : MethodBody) (locals : List Nat) : Activation till :=
  ⟨body, true, [(0 : Nat)], locals⟩

end Example

end HookWeave

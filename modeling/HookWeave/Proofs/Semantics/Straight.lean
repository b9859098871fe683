import HookWeave.Proofs.Code.Lists
import HookWeave.Proofs.Code.ShortForms
import HookWeave.Proofs.Semantics.Machine
import Mathlib.Data.List.Induction

/-!
# Straight-line code

What a single instruction does, given that it is there (`step_iff`), and what the short forms of
loads and stores do. A piece of code runs through if each of its instructions goes on to the next
(`Activation.Through`).
-/

namespace HookWeave

variable {M : Machine}

/-- The same state at another instruction. -/
def State.moveTo (s : State M) (id : InstrId) : State M :=
  { s with here := id }

/-- The state with another stack and another memory. -/
def State.becomes (s : State M) (stack : List M.Value) (memory : M.Memory) : State M :=
  { s with stack := stack, memory := memory }

lemma Run.trans {step : State M → List (Call M.Value) → Configuration M → Prop}
    {c c' c'' : Configuration M} {calls calls' : List (Call M.Value)} (h : Run step c calls c')
    (h' : Run step c' calls' c'') :
    Run step c (calls ++ calls') c'' := by
  induction h' with
  | refl =>
    rw [List.append_nil]
    exact h
  | snoc _ last ih =>
    rw [← List.append_assoc]
    exact ih.snoc last

lemma Run.single {step : State M → List (Call M.Value) → Configuration M → Prop} {s : State M}
    {calls : List (Call M.Value)} {c : Configuration M} (h : step s calls c) :
    Run step (.running s) calls c :=
  Run.snoc .refl h

/-- A run by steps that are also of another kind is a run by steps of that kind. -/
lemma Run.mono {step step' : State M → List (Call M.Value) → Configuration M → Prop}
    {c c' : Configuration M} {calls : List (Call M.Value)} (h : Run step c calls c')
    (imp : ∀ {s more c}, step s more c → step' s more c) : Run step' c calls c' := by
  induction h with
  | refl => exact .refl
  | snoc _ last ih => exact ih.snoc (imp last)

/-! ## Short forms -/

namespace ShortForm

variable (id : InstrId) (slot : UInt16)

lemma routine?_loadArg : (Instruction.ofCode id (loadArg slot)).routine? = some .load := by
  unfold loadArg
  split_ifs <;> rfl

lemma routine?_loadLocal : (Instruction.ofCode id (loadLocal slot)).routine? = some .load := by
  unfold loadLocal
  split_ifs <;> rfl

lemma routine?_storeLocal : (Instruction.ofCode id (storeLocal slot)).routine? = some .store := by
  unfold storeLocal
  split_ifs <;> rfl

lemma routine?_loadLocalAddress :
    (Instruction.ofCode id (loadLocalAddress slot)).routine? = some .address := by
  unfold loadLocalAddress
  split_ifs <;> rfl

variable (a : Activation M)

lemma cell?_loadArg : a.cell? (.ofCode id (loadArg slot)) = a.args[slot.toNat]? := by
  unfold loadArg
  split_ifs <;> subst_vars <;> rfl

lemma cell?_loadLocal : a.cell? (.ofCode id (loadLocal slot)) = a.locals[slot.toNat]? := by
  unfold loadLocal
  split_ifs <;> subst_vars <;> rfl

lemma cell?_storeLocal : a.cell? (.ofCode id (storeLocal slot)) = a.locals[slot.toNat]? := by
  unfold storeLocal
  split_ifs <;> subst_vars <;> rfl

lemma cell?_loadLocalAddress :
    a.cell? (.ofCode id (loadLocalAddress slot)) = a.locals[slot.toNat]? := by
  unfold loadLocalAddress
  split_ifs <;> rfl

end ShortForm

/-! ## Outcomes -/

namespace Outcome

variable {flow : Flow} {pushes : Nat} {rest pushed : List M.Value} {memory : M.Memory} {t : Turn M}

lemma turn?_next : turn? flow pushes rest (.next pushed memory) = some t
    ↔ pushed.length = pushes ∧ flow.isTerminal = false ∧ t = .next (pushed ++ rest) memory := by
  show (if _ then _ else _) = _ ↔ _
  by_cases fits : pushed.length = pushes ∧ (!flow.isTerminal) = true
  · rw [if_pos fits, Option.some.injEq]
    rw [Bool.not_eq_true'] at fits
    exact ⟨fun h => ⟨fits.1, fits.2, h.symm⟩, fun h => h.2.2.symm⟩
  · rw [if_neg fits]
    rw [Bool.not_eq_true'] at fits
    exact ⟨fun h => (Option.some_ne_none t h.symm).elim, fun h => absurd ⟨h.1, h.2.1⟩ fits⟩

lemma turn?_jump {n : Nat} : turn? flow pushes rest (.jump n pushed memory) = some t
    ↔ pushed.length = pushes ∧ flow ∈ [.conditional, .switch, .jump]
      ∧ t = .jump n (pushed ++ rest) memory := by
  show (if _ then _ else _) = _ ↔ _
  by_cases fits : pushed.length = pushes ∧ flow ∈ [.conditional, .switch, .jump]
  · rw [if_pos fits, Option.some.injEq]
    exact ⟨fun h => ⟨fits.1, fits.2, h.symm⟩, fun h => h.2.2.symm⟩
  · rw [if_neg fits]
    exact ⟨fun h => (Option.some_ne_none t h.symm).elim, fun h => absurd ⟨h.1, h.2.1⟩ fits⟩

end Outcome

/-! ## Code in lists -/

namespace InstructionList

lemma length_number {n : Nat} {code : List (OpCode × Operand)} :
    (number n code).length = code.length := by
  induction code generalizing n with
  | nil => rfl
  | cons c code ih => exact congrArg (· + 1) ih

/-- Code stands in a list from a position on, under identities from `n` on. -/
def Holds (l : InstructionList) (p n : Nat) (code : List (OpCode × Operand)) : Prop :=
  ∀ k c, code[k]? = some c → l.items[p + k]? = some (.ofCode ⟨n + k⟩ c)

end InstructionList

namespace Activation

variable {a : Activation M} {i : Instruction} {s : State M} {t : Turn M} {c : Configuration M}
  {calls : List (Call M.Value)} {stack : List M.Value} {memory : M.Memory}

/-! ## Single steps -/

lemma step_iff (found : a.body.instructions.get? s.here = some i) :
    a.Step s calls c ↔ calls = a.calls i s ∧ ∃ t, a.Does i s t ∧ a.Lands i s t c := by
  constructor
  · intro h
    cases h with
    | execute found' does lands =>
      cases found.symm.trans found'
      exact ⟨rfl, _, does, lands⟩
    | lost none => cases found.symm.trans none
  · rintro ⟨rfl, t, does, lands⟩
    exact .execute found does lands

lemma step_lost_iff (none : a.body.instructions.get? s.here = none) :
    a.Step s calls c ↔ calls = [] ∧ c = .wrong := by
  constructor
  · intro h
    cases h with
    | execute found => cases none.symm.trans found
    | lost => exact ⟨rfl, rfl⟩
  · rintro ⟨rfl, rfl⟩
    exact .lost none

lemma does_routine {r : Routine} (h : i.routine? = some r) : a.Does i s t ↔ t = a.turn i s r := by
  rw [Does, h]

variable {id : InstrId} {slot : UInt16} {cell : M.Cell}

lemma does_loadArg (h : a.args[slot.toNat]? = some cell) :
    a.Does (.ofCode id (ShortForm.loadArg slot)) s t
      ↔ t = .next (M.load s.memory cell :: s.stack) s.memory := by
  rw [does_routine (ShortForm.routine?_loadArg id slot), turn, ShortForm.cell?_loadArg, h]

lemma does_loadLocal (h : a.locals[slot.toNat]? = some cell) :
    a.Does (.ofCode id (ShortForm.loadLocal slot)) s t
      ↔ t = .next (M.load s.memory cell :: s.stack) s.memory := by
  rw [does_routine (ShortForm.routine?_loadLocal id slot), turn, ShortForm.cell?_loadLocal, h]

lemma does_storeLocal {value : M.Value} (h : a.locals[slot.toNat]? = some cell)
    (top : s.stack = value :: stack) :
    a.Does (.ofCode id (ShortForm.storeLocal slot)) s t
      ↔ t = .next stack (M.store s.memory cell value) := by
  rw [does_routine (ShortForm.routine?_storeLocal id slot), turn, ShortForm.cell?_storeLocal, h, top]

lemma does_loadLocalAddress (h : a.locals[slot.toNat]? = some cell) :
    a.Does (.ofCode id (ShortForm.loadLocalAddress slot)) s t
      ↔ t = .next (M.address cell :: s.stack) s.memory := by
  rw [does_routine (ShortForm.routine?_loadLocalAddress id slot), turn,
    ShortForm.cell?_loadLocalAddress, h]

/-- An instruction that the machine executes does one of its outcomes, if the stack holds what it
takes. -/
lemma does_exec {effect : StackEffect} (h : i.routine? = none)
    (takes : i.stackEffect a.returnsValue = .ok effect) (enough : effect.pops ≤ s.stack.length) :
    a.Does i s t ↔ ∃ outcome : Outcome M.Value M.Memory,
      M.exec i.op i.shown (s.stack.take effect.pops) s.control s.memory outcome
        ∧ outcome.turn? i.flow effect.pushes (s.stack.drop effect.pops) = some t := by
  rw [Does, h]
  simp only [takes, Nat.not_lt.2 enough, if_false]

/-- An instruction of the machine that pushes one value and does not branch does so or raises. -/
lemma does_exec_one {pops : Nat} (h : i.routine? = none)
    (takes : i.stackEffect a.returnsValue = .ok ⟨pops, 1⟩) (flow : i.flow = .next)
    (enough : pops ≤ s.stack.length) :
    a.Does i s t ↔
      (∃ value memory, t = .next (value :: s.stack.drop pops) memory
        ∧ M.exec i.op i.shown (s.stack.take pops) s.control s.memory (.next [value] memory))
      ∨ ∃ exception memory, t = .raise exception memory
        ∧ M.exec i.op i.shown (s.stack.take pops) s.control s.memory (.raise exception memory) := by
  rw [does_exec h takes enough, flow]
  constructor
  · rintro ⟨outcome, executed, turned⟩
    cases outcome with
    | next pushed memory =>
      obtain ⟨one, _, rfl⟩ := Outcome.turn?_next.1 turned
      obtain ⟨value, rfl⟩ := List.length_eq_one_iff.1 one
      exact .inl ⟨value, memory, rfl, executed⟩
    | jump n pushed memory =>
      obtain ⟨_, branches, _⟩ := Outcome.turn?_jump.1 turned
      simp at branches
    | raise exception memory =>
      cases turned
      exact .inr ⟨exception, memory, rfl, executed⟩
  · rintro (⟨value, memory, rfl, executed⟩ | ⟨exception, memory, rfl, executed⟩)
    · exact ⟨_, executed, rfl⟩
    · exact ⟨_, executed, rfl⟩

lemma calls_eq_nil (h : i.flow ≠ .call) : a.calls i s = [] := by
  rw [calls]
  split
  · next flow _ _ => exact absurd flow h
  · rfl

/-! ## Calls -/

variable {m : MethodRef}

/-- A call takes its arguments from the stack and pushes its result, or raises. -/
lemma does_call (enough : m.sig.argCount ≤ s.stack.length) :
    a.Does (.ofCode id (.call, .method m)) s t ↔
      (∃ pushed memory, t = .next (pushed ++ s.stack.drop m.sig.argCount) memory
        ∧ pushed.length = (!m.sig.ret.isVoid).toNat
        ∧ M.exec .call (.method m) (s.stack.take m.sig.argCount) s.control s.memory
          (.next pushed memory))
      ∨ ∃ exception memory, t = .raise exception memory
        ∧ M.exec .call (.method m) (s.stack.take m.sig.argCount) s.control s.memory
          (.raise exception memory) := by
  have takes : (Instruction.ofCode id (.call, .method m)).stackEffect a.returnsValue
      = .ok ⟨m.sig.argCount, (!m.sig.ret.isVoid).toNat⟩ := rfl
  rw [does_exec rfl takes enough]
  constructor
  · rintro ⟨outcome, executed, turned⟩
    cases outcome with
    | next pushed memory =>
      obtain ⟨count, _, rfl⟩ := Outcome.turn?_next.1 turned
      exact .inl ⟨pushed, memory, rfl, count, executed⟩
    | jump n pushed memory =>
      obtain ⟨_, branches, _⟩ := Outcome.turn?_jump.1 turned
      have branches : Flow.call ∈ [Flow.conditional, .switch, .jump] := branches
      exact absurd branches (by decide)
    | raise exception memory =>
      cases turned
      exact .inr ⟨exception, memory, rfl, executed⟩
  · rintro (⟨pushed, memory, rfl, count, executed⟩ | ⟨exception, memory, rfl, executed⟩)
    · exact ⟨_, executed, Outcome.turn?_next.2 ⟨count, rfl, rfl⟩⟩
    · exact ⟨_, executed, rfl⟩

/-- A call is made with the arguments on the stack, which were pushed in order. -/
lemma calls_call (enough : m.sig.argCount ≤ s.stack.length) :
    a.calls (.ofCode id (.call, .method m)) s
      = [⟨m, (s.stack.take m.sig.argCount).reverse⟩] := by
  show (if s.stack.length < m.sig.argCount then [] else _) = _
  rw [if_neg (Nat.not_lt.2 enough)]

lemma lands_next {k : Nat} {j : Instruction} (here : a.body.instructions.items[k]? = some i)
    (next : a.body.instructions.items[k + 1]? = some j) :
    a.Lands i s (.next stack memory) c ↔ c = .running ((s.becomes stack memory).moveTo j.id) := by
  have successor : a.body.instructions.successor? i.id = some j.id := by
    rw [InstructionList.successor?_getElem here, next]
    rfl
  constructor
  · intro h
    cases h with
    | next found =>
      cases successor.symm.trans found
      rfl
    | pastEnd none => cases successor.symm.trans none
  · rintro rfl
    exact .next successor

lemma lands_jump {n : Nat} {id : InstrId} (found : i.targets[n]? = some id)
    (listed : a.body.instructions.contains id) :
    a.Lands i s (.jump n stack memory) c ↔ c = .running ((s.becomes stack memory).moveTo id) := by
  constructor
  · intro h
    cases h with
    | jump found' _ =>
      cases found.symm.trans found'
      rfl
    | stray unlisted => exact absurd listed (unlisted id found)
  · rintro rfl
    exact .jump found listed

lemma lands_ret {values : List M.Value} :
    a.Lands i s (.ret values) c ↔ c = .returned values s.memory := by
  constructor
  · intro h
    cases h
    rfl
  · rintro rfl
    exact .ret

lemma lands_raise {exception : M.Value} : a.Lands i s (.raise exception memory) c
    ↔ a.Routes { s with memory := memory } (.raise exception) c := by
  constructor
  · intro h
    cases h with
    | raise routed => exact routed
  · exact .raise

/-- Where a verdict leads does not depend on the instruction and the stack. -/
lemma follows_moved {here here' : InstrId} {stack' : List M.Value}
    {control control' control₁ : M.Control} {left : List InstrId} {coverage : List Coverage}
    {verdict : Verdict M.Value}
    (h : a.Follows ⟨here, stack, control, left, memory⟩ coverage control₁ verdict c) :
    a.Follows ⟨here', stack', control', left, memory⟩ coverage control₁ verdict c := by
  cases h with
  | enter found guarded depth => exact .enter found guarded depth
  | resume found => exact .resume found
  | escape => exact .escape

/-! ## Pieces of code -/

/-- Every instruction of the code goes on to the next, from one state to another. The code has no
place here, so that both states stand at the same instruction. -/
def Through (a : Activation M) : List (OpCode × Operand) → State M → State M → Prop
  | [], s, s' => s' = s
  | c :: code, s, s' => ∃ stack memory, a.Does (.ofCode s.here c) s (.next stack memory)
      ∧ a.Through code (s.becomes stack memory) s'

lemma through_append {code code' : List (OpCode × Operand)} {s s'' : State M} :
    a.Through (code ++ code') s s'' ↔ ∃ s', a.Through code s s' ∧ a.Through code' s' s'' := by
  induction code generalizing s with
  | nil =>
    constructor
    · intro h
      exact ⟨s, rfl, h⟩
    · rintro ⟨s', rfl, h⟩
      exact h
  | cons c code ih =>
    constructor
    · rintro ⟨stack, memory, does, others⟩
      obtain ⟨s', first, second⟩ := ih.1 others
      exact ⟨s', ⟨stack, memory, does, first⟩, second⟩
    · rintro ⟨s', ⟨stack, memory, does, first⟩, second⟩
      exact ⟨stack, memory, does, ih.2 ⟨s', first, second⟩⟩

/-- Code that runs through changes the stack and the memory only. -/
lemma through_frame {code : List (OpCode × Operand)} {s s' : State M} (h : a.Through code s s') :
    s' = s.becomes s'.stack s'.memory := by
  induction code generalizing s with
  | nil =>
    cases h
    rfl
  | cons c code ih =>
    obtain ⟨stack, memory, _, others⟩ := h
    have same := ih others
    exact same

/-- Each instruction of the code, where those before it went on to it, goes on to the next or raises
one of some exceptions. -/
def Steady (a : Activation M) (raises : M.Value → M.Memory → Prop) :
    List (OpCode × Operand) → State M → Prop
  | [], _ => True
  | c :: code, s => ∀ t, a.Does (.ofCode s.here c) s t →
      (∃ stack memory, t = .next stack memory ∧ a.Steady raises code (s.becomes stack memory))
        ∨ ∃ exception memory, t = .raise exception memory ∧ raises exception memory

/-- Code is steady if its parts are, the second from where the first stops. -/
lemma steady_append {raises : M.Value → M.Memory → Prop} {code code' : List (OpCode × Operand)}
    {s : State M} (first : a.Steady raises code s)
    (second : ∀ s', a.Through code s s' → a.Steady raises code' s') :
    a.Steady raises (code ++ code') s := by
  induction code generalizing s with
  | nil => exact second s rfl
  | cons c code ih =>
    intro t does
    cases first t does with
    | inl goes =>
      obtain ⟨stack, memory, rfl, others⟩ := goes
      exact .inl ⟨stack, memory, rfl, ih others fun s' h => second s' ⟨stack, memory, does, h⟩⟩
    | inr raised => exact .inr raised

/-! ## Runs through code -/

section Runs

variable {p n : Nat} {pre post : List (OpCode × Operand)} {c : OpCode × Operand} {j j' : Instruction}
  {s s' : State M} {cfg : Configuration M}

lemma step_held {code : List (OpCode × Operand)} {k : Nat} (held : a.body.instructions.Holds p n code)
    (at' : code[k]? = some c) (here : a.body.instructions.items[p + k]? = some j) :
    a.Step (s.moveTo j.id) calls cfg ↔ calls = a.calls (.ofCode s.here c) s
      ∧ ∃ t, a.Does (.ofCode s.here c) s t ∧ a.Lands j (s.moveTo j.id) t cfg := by
  cases (held k c at').symm.trans here
  exact step_iff (s := s.moveTo _) (InstructionList.get?_getElem here)

lemma calls_plain {id : InstrId} (plain : Plain c) : a.calls (.ofCode id c) s = [] := by
  refine calls_eq_nil ?_
  show c.1.info.flow ≠ _
  rw [plain.flow]
  exact Flow.noConfusion

/-- From steady code a run goes on to the next instruction, or one of the exceptions is raised. -/
lemma step_steady {raises : M.Value → M.Memory → Prop} {steadily : List (OpCode × Operand)}
    (held : a.body.instructions.Holds p n (pre ++ c :: post)) (plain : Plain c)
    (steady : a.Steady raises (c :: steadily) s)
    (here : a.body.instructions.items[p + pre.length]? = some j)
    (behind : a.body.instructions.items[p + pre.length + 1]? = some j')
    (step : a.Step (s.moveTo j.id) calls cfg) : calls = []
      ∧ ((∃ s', cfg = .running (s'.moveTo j'.id) ∧ a.Through [c] s s' ∧ a.Steady raises steadily s')
        ∨ ∃ exception memory, raises exception memory
          ∧ a.Routes { s.moveTo j.id with memory := memory } (.raise exception) cfg) := by
  have at' : (pre ++ c :: post)[pre.length]? = some c := by
    rw [List.getElem?_append_right (Nat.le_refl _), Nat.sub_self]
    rfl
  obtain ⟨rfl, t, does, lands⟩ := (step_held held at' here).1 step
  refine ⟨calls_plain plain, ?_⟩
  obtain ⟨stack, memory, rfl, steady'⟩ | ⟨exception, memory, rfl, raised⟩ := steady t does
  · cases (lands_next here behind).1 lands
    exact .inl ⟨s.becomes stack memory, rfl, ⟨stack, memory, does, rfl⟩, steady'⟩
  · exact .inr ⟨exception, memory, raised, lands_raise.1 lands⟩

/-- Code that runs through is run from its first instruction to the one behind it. -/
lemma run_held (held : a.body.instructions.Holds p n (pre ++ post)) (plain : ∀ c ∈ pre, Plain c)
    (through : a.Through pre s s') (entry : a.body.instructions.items[p]? = some i)
    (behind : a.body.instructions.items[p + pre.length]? = some j) :
    Run a.Step (.running (s.moveTo i.id)) [] (.running (s'.moveTo j.id)) := by
  induction pre using List.reverseRecOn generalizing post s' j with
  | nil =>
    cases through
    cases entry.symm.trans behind
    exact .refl
  | append_singleton pre c ih =>
    obtain ⟨plain', last⟩ := List.forall_mem_append.1 plain
    obtain ⟨s₁, first, stack, memory, does, rfl⟩ := through_append.1 through
    rw [List.append_assoc] at held
    have at' : (pre ++ ([c] ++ post))[pre.length]? = some c := by
      rw [List.getElem?_append_right (Nat.le_refl _), Nat.sub_self]
      rfl
    have here := held _ c at'
    rw [List.length_append] at behind
    refine (ih held plain' first here).trans (.single ((step_held held at' here).2 ⟨?_, _, does, ?_⟩))
    · exact (calls_plain (last c (List.mem_singleton_self c))).symm
    · exact (lands_next here behind).2 rfl

end Runs

/-! ## Code that pushes values -/

/-- With some memory, the instruction pushes a value and does nothing else. -/
def Pushes (a : Activation M) (memory : M.Memory) (c : OpCode × Operand) (value : M.Value) : Prop :=
  ∀ s : State M, s.memory = memory → ∀ t,
    a.Does (.ofCode s.here c) s t ↔ t = .next (value :: s.stack) memory

variable {code : List (OpCode × Operand)} {values : List M.Value}

/-- Code that pushes values runs through with these on the stack, the last on top. -/
lemma through_pushes (h : List.Forall₂ (a.Pushes memory) code values) {s s' : State M}
    (same : s.memory = memory) :
    a.Through code s s' ↔ s' = s.becomes (values.reverse ++ s.stack) memory := by
  induction h generalizing s with
  | nil =>
    cases same
    rfl
  | @cons c value code values pushes _ ih =>
    have others := ih (s := s.becomes (value :: s.stack) memory) rfl
    rw [List.reverse_cons, List.append_assoc]
    constructor
    · rintro ⟨stack, memory', does, rest⟩
      cases (pushes s same _).1 does
      exact others.1 rest
    · intro h
      exact ⟨_, _, (pushes s same _).2 rfl, others.2 h⟩

lemma steady_pushes {raises : M.Value → M.Memory → Prop}
    (h : List.Forall₂ (a.Pushes memory) code values) {s : State M} (same : s.memory = memory) :
    a.Steady raises code s := by
  induction h generalizing s with
  | nil => exact trivial
  | @cons c value code values pushes _ ih =>
    intro t does
    cases (pushes s same t).1 does
    exact .inl ⟨_, _, rfl, ih rfl⟩

end Activation

/-! ## An example -/

namespace Example

/-- A body that branches on its argument. -/
def branching (long : InstrId) : MethodBody where
  maxStack := 1
  initLocals := false
  locals := []
  instructions := .ofCode [(.ldarg0, .none), (.brtrueShort, .target long), (.ret, .none)]
  clauses := []

/-- A body that runs for a method without a result, with its argument in the first cell. -/
def atDoor (body : MethodBody) : Activation till :=
  ⟨body, false, [(0 : Nat)], []⟩

/-- With a branch to an instruction that is not there, the body goes wrong where the branch is taken. -/
lemma runs_branching {long : InstrId} (nowhere : (branching long).instructions.contains long = false)
    {calls : List (Call till.Value)} {c : Configuration till}
    (run : Run (atDoor (branching long)).Step (.running (.start ⟨0⟩ () ([1] : List Int))) calls c) :
    calls = [] ∧ (c = .running (.start ⟨0⟩ () ([1] : List Int))
      ∨ c = .running ⟨⟨1⟩, [(1 : Int)], (), [], ([1] : List Int)⟩ ∨ c = .wrong) := by
  induction run with
  | refl => exact ⟨rfl, .inl rfl⟩
  | snoc _ step ih =>
    obtain ⟨rfl, start | branch | none⟩ := ih
    · cases start
      obtain ⟨rfl, t, does, lands⟩ :=
        (Activation.step_iff (i := ⟨⟨0⟩, .ldarg0, .none⟩) rfl).1 step
      cases (Activation.does_routine (r := .load) rfl).1 does
      have next := (Activation.lands_next (k := 0) (j := ⟨⟨1⟩, .brtrueShort, .target long⟩) rfl rfl).1
        lands
      exact ⟨rfl, .inr (.inl next)⟩
    · cases branch
      obtain ⟨rfl, t, does, lands⟩ :=
        (Activation.step_iff (i := ⟨⟨1⟩, .brtrueShort, .target long⟩) rfl).1 step
      cases (Activation.does_routine (r := .branchIfTrue) rfl).1 does
      refine ⟨rfl, .inr (.inr ?_)⟩
      cases lands with
      | jump found listed =>
        cases found
        cases nowhere.symm.trans listed
      | stray => rfl
    · cases none

end Example
end HookWeave

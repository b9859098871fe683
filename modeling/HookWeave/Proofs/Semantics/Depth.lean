import HookWeave.Proofs.Code.StackDepth
import HookWeave.Proofs.Semantics.Straight

/-!
# Stacks in balanced bodies

In a balanced body the stack is as deep at every instruction as the search for the greatest depth
has found (`State.Level`). Steps keep this (`State.Level.step`), so that no run comes to an
instruction that takes more values than there are (`State.Level.enough`).
-/

namespace HookWeave

variable {M : Machine} {a : Activation M} {i : Instruction} {s s' : State M}

/-! ## Effects of routines -/

/-- How many values a routine takes and leaves. -/
def Routine.effect (returnsValue : Bool) : Routine → StackEffect
  | load | address | constant _ => ⟨0, 1⟩
  | store | discard | branchIfTrue => ⟨1, 0⟩
  | ret => ⟨returnsValue.toNat, 0⟩
  | leave | endFinally => ⟨0, 0⟩

/-- Where control goes after a routine. -/
def Routine.flow : Routine → Flow
  | load | store | address | constant _ | discard => .next
  | branchIfTrue => .conditional
  | ret => .ret
  | leave => .leave
  | endFinally => .endFinally

/-- An instruction with a routine has its effect and its flow. -/
lemma Instruction.of_routine? {r : Routine} (h : i.routine? = some r) (returnsValue : Bool) :
    i.stackEffect returnsValue = .ok (r.effect returnsValue) ∧ i.flow = r.flow := by
  obtain ⟨id, op, operand⟩ := i
  cases op with
  | ldcI4Short | ldcI4 =>
    cases operand with
    | int32 =>
      cases h
      exact ⟨rfl, rfl⟩
    | _ => cases h
  | _ => cases h <;> exact ⟨rfl, rfl⟩

/-- What is done is in keeping with the stack effect and the flow of the instruction. -/
def Turn.Fits (returnsValue : Bool) (i : Instruction) (s : State M) : Turn M → Prop
  | next stack _ => ∃ effect, i.stackEffect returnsValue = .ok effect
    ∧ stack.length = s.stack.length - effect.pops + effect.pushes ∧ i.isTerminal = false
  | jump _ stack _ => ∃ effect, i.stackEffect returnsValue = .ok effect
    ∧ stack.length = s.stack.length - effect.pops + effect.pushes
    ∧ i.flow ∈ [.conditional, .switch, .jump]
  | leave => i.flow = .leave
  | _ => True

namespace Activation

lemma turn_fits {r : Routine} (h : i.routine? = some r) :
    (a.turn i s r).Fits a.returnsValue i s := by
  obtain ⟨takes, flow⟩ := Instruction.of_routine? h a.returnsValue
  have goes (next : r.flow = .next) : i.isTerminal = false := by
    rw [Instruction.isTerminal, flow, next]
    rfl
  cases r with
  | load | address =>
    rw [turn]
    split
    · exact ⟨_, takes, rfl, goes rfl⟩
    · exact trivial
  | store =>
    rw [turn]
    split
    · next top => exact ⟨_, takes, by rw [top]; rfl, goes rfl⟩
    · exact trivial
  | constant => exact ⟨_, takes, rfl, goes rfl⟩
  | discard =>
    rw [turn]
    split
    · next top => exact ⟨_, takes, by rw [top]; rfl, goes rfl⟩
    · exact trivial
  | branchIfTrue =>
    rw [turn]
    split
    · next top =>
      split_ifs
      · exact ⟨_, takes, by rw [top]; rfl, by rw [flow]; exact List.mem_cons_self⟩
      · refine ⟨_, takes, by rw [top]; rfl, ?_⟩
        rw [Instruction.isTerminal, flow]
        rfl
    · exact trivial
  | ret =>
    rw [turn]
    split_ifs <;> exact trivial
  | leave => exact flow
  | endFinally => exact trivial

/-- Whatever an instruction does is in keeping with it. -/
theorem does_fits {t : Turn M} (h : a.Does i s t) : t.Fits a.returnsValue i s := by
  rw [Does] at h
  cases routine : i.routine? with
  | some r =>
    rw [routine] at h
    cases h
    exact turn_fits routine
  | none =>
    rw [routine] at h
    cases takes : i.stackEffect a.returnsValue with
    | error =>
      simp only [takes] at h
      cases h
      exact trivial
    | ok effect =>
      simp only [takes] at h
      split_ifs at h with short
      · cases h
        exact trivial
      obtain ⟨outcome, _, turned⟩ := h
      have length (pushed : List M.Value) (count : pushed.length = effect.pushes) :
          (pushed ++ s.stack.drop effect.pops).length
            = s.stack.length - effect.pops + effect.pushes := by
        rw [List.length_append, List.length_drop, count, Nat.add_comm]
      cases outcome with
      | next pushed =>
        obtain ⟨count, goes, rfl⟩ := Outcome.turn?_next.1 turned
        exact ⟨effect, takes, length pushed count, goes⟩
      | jump _ pushed =>
        obtain ⟨count, branches, rfl⟩ := Outcome.turn?_jump.1 turned
        exact ⟨effect, takes, length pushed count, branches⟩
      | raise =>
        cases turned
        exact trivial

end Activation

/-! ## Steps -/

/-- The stack is as deep as it should be where the state stands, and would be where control was to
leave for. -/
structure State.Level (s : State M) (l : InstructionList) (depth : Nat → Option Nat) : Prop where
  here : ∃ p, l.position? s.here = some p ∧ depth p = some s.stack.length
  left : ∀ id ∈ s.left, ∃ p, l.position? id = some p ∧ depth p = some 0

namespace State.Level

variable {depth : Nat → Option Nat} {calls : List (Call M.Value)} {c : Configuration M}

/-- No instruction in a balanced body takes more values than there are. -/
theorem enough (level : s.Level a.body.instructions depth)
    (b : a.body.instructions.Balanced a.returnsValue a.body.handlerEntries depth)
    (found : a.body.instructions.get? s.here = some i) :
    ∃ effect, i.stackEffect a.returnsValue = .ok effect ∧ effect.pops ≤ s.stack.length := by
  obtain ⟨p, position, known⟩ := level.here
  obtain ⟨k, at', here⟩ := InstructionList.get?_eq_some.1 found
  cases position.symm.trans (here ▸ InstructionList.position?_getElem at')
  obtain ⟨effect, _, takes, enough, _⟩ := b.allows known at'
  exact ⟨effect, takes, enough⟩

/-- Clauses send control to handlers with the stack that these are entered with, and to targets with
an empty one. -/
lemma routes
    (left : ∀ id ∈ s.left, ∃ p, a.body.instructions.position? id = some p ∧ depth p = some 0)
    (b : a.body.instructions.Balanced a.returnsValue a.body.handlerEntries depth)
    {cause : Cause M.Value} (h : a.Routes s cause (.running s')) :
    s'.Level a.body.instructions depth := by
  cases covered : a.body.coverage? s.here with
  | none =>
    cases (Activation.routes_uncovered covered).1 h
  | some coverage =>
    obtain ⟨verdict, control, _, follows⟩ := (Activation.routes_iff covered).1 h
    cases follows with
    | @enter k entry clause found _ size =>
      have listed : (clause.handlerStart, clause.entryDepth) ∈ a.body.handlerEntries :=
        List.mem_map_of_mem (List.mem_of_getElem? found)
      obtain ⟨p, position, known⟩ := b.entry _ listed
      exact ⟨⟨p, position, known.trans (congrArg some size.symm)⟩, left⟩
    | resume found => exact ⟨left _ (List.mem_of_getElem? found), left⟩

/-- A step in a balanced body keeps the stack level. -/
theorem step (level : s.Level a.body.instructions depth)
    (b : a.body.instructions.Balanced a.returnsValue a.body.handlerEntries depth)
    (h : a.Step s calls (.running s')) : s'.Level a.body.instructions depth := by
  obtain ⟨⟨p, position, known⟩, left⟩ := level
  generalize same : Configuration.running s' = c at h
  cases h with
  | lost => cases same
  | @execute i t _ found does lands =>
    cases same
    obtain ⟨k, at', here⟩ := InstructionList.get?_eq_some.1 found
    cases position.symm.trans (here ▸ InstructionList.position?_getElem at')
    have fits := Activation.does_fits does
    cases lands with
    | @next stack memory id successor =>
      obtain ⟨effect, takes, length, goes⟩ := fits
      rw [InstructionList.successor?_getElem at'] at successor
      obtain ⟨j, behind, rfl⟩ := Option.map_eq_some_iff.1 successor
      refine ⟨⟨p + 1, InstructionList.position?_getElem behind, ?_⟩, left⟩
      exact (b.next known at' takes goes).trans (congrArg some length.symm)
    | jump targeted =>
      obtain ⟨effect, takes, length, branches⟩ := fits
      obtain ⟨q, there, deep⟩ := b.target known at' takes branches (List.mem_of_getElem? targeted)
      exact ⟨⟨q, there, deep.trans (congrArg some length.symm)⟩, left⟩
    | @leave id target _ targeted _ routed =>
      have goes := b.leave known at' fits (List.mem_of_getElem? targeted)
      exact routes (s := { s with left := id :: s.left }) (List.forall_mem_cons.2 ⟨goes, left⟩) b
        routed
    | @raise exception memory _ routed =>
      exact routes (s := { s with memory := memory }) left b routed
    | endFinally routed => exact routes left b routed

/-- Every state that a run in a balanced body comes to is level. -/
theorem run (b : a.body.instructions.Balanced a.returnsValue a.body.handlerEntries depth)
    {first : Instruction} {control : M.Control} {memory : M.Memory}
    (head : a.body.instructions.items[0]? = some first)
    (h : Run a.Step (.running (.start first.id control memory)) calls c) (running : c = .running s) :
    s.Level a.body.instructions depth := by
  induction h generalizing s with
  | refl =>
    cases running
    exact ⟨⟨0, InstructionList.position?_getElem head, b.first⟩, nofun⟩
  | snoc _ last ih =>
    cases running
    exact (ih rfl).step b last

end State.Level
end HookWeave

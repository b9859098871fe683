import HookWeave.Proofs.Semantics.Depth
import HookWeave.Proofs.Semantics.Tail
import HookWeave.Proofs.Weaving.Passing
import HookWeave.Proofs.Weaving.Returns

/-!
# Hooks that run after their target

A run of a body with a hook behind it is one of the target in which the hook is called, and its
result returned, in place of the last return (`weave_after_simulates`), if the target names only what
it has handed out. A branch to an identity that is still to come may lead past the call
(`Example.stray_visit_passes_greeting`).
-/

namespace HookWeave
namespace Weaving

variable {M : Machine}

/-- What a hook that runs after its target is given: the first arguments of the target. -/
def givenAfter (w : Weaving) (a : Activation M) (memory : M.Memory) : List (Option M.Value) :=
  (List.range w.request.hookParams.length).map fun k => a.args[k]?.map (M.load memory)

/-- What lies under the result of the target, as far as the hook is called on it. -/
def receiver (w : Weaving) (s : State M) : List M.Value :=
  (s.stack.drop w.target.returnsValue.toNat).take w.request.hook.sig.hasThis.toNat

/-- The state in which the hook is called, with what it is given on the stack in place of the
result. -/
def atCall (w : Weaving) (s : State M) (values : List M.Value) : State M :=
  s.becomes (values.reverse ++ s.stack.drop w.target.returnsValue.toNat) s.memory

/-- Some outcome of the call of the hook in a state at the last return. -/
inductive CallsAfter (w : Weaving) (a : Activation M) (s : State M) :
    List M.Value → Outcome M.Value M.Memory → Prop where
  | call {values : List M.Value} {outcome : Outcome M.Value M.Memory}
      (given : values.map some = w.givenAfter a s.memory)
      (executed : M.exec .call (.method w.request.hook) (values.reverse ++ w.receiver s) s.control
        s.memory outcome) :
      w.CallsAfter a s (w.receiver s ++ values) outcome

/-- A step of the target, but for its last return. There the hook is called, what it returns is
returned, and what it raises is raised. -/
inductive StepAfter (w : Weaving) (a : Activation M) (last : InstrId) (s : State M) :
    List (Call M.Value) → Configuration M → Prop where
  | elsewhere {calls : List (Call M.Value)} {c : Configuration M} (other : s.here ≠ last)
      (step : a.Step s calls c) : w.StepAfter a last s calls c
  | returns {values pushed : List M.Value} {memory : M.Memory} (arrived : s.here = last)
      (called : w.CallsAfter a s values (.next pushed memory))
      (count : pushed.length = w.target.returnsValue.toNat) :
      w.StepAfter a last s [⟨w.request.hook, values⟩] (.returned pushed memory)
  | raises {values : List M.Value} {exception : M.Value} {memory : M.Memory} {c : Configuration M}
      (arrived : s.here = last) (called : w.CallsAfter a s values (.raise exception memory))
      (routed : a.Routes { s with memory := memory } (.raise exception) c) :
      w.StepAfter a last s [⟨w.request.hook, values⟩] c

/-- Drops the result of the target. -/
def drop (w : Weaving) : Code :=
  if w.target.returnsValue then [(.pop, .none)] else []

/-- An activation of the target and one of the woven body: the hook's call stands in place of the
target's last return, and the stack balances. What the target names was handed out. -/
structure Behind (w : Weaving) (a a' : Activation M) (pre : List Instruction) (last : Instruction)
    (loads : Code) : Prop where
  ends : a.Ends a' pre last (w.drop ++ loads ++ [w.call, (.ret, .none)])
  named : a.body.HandedOut
  loaded : w.loads none 0 w.request.hookParams = .ok loads
  pushes : ∀ memory, ∃ values, values.map some = w.givenAfter a memory
    ∧ List.Forall₂ (a'.Pushes memory) loads values
  takes : w.request.hook.sig.argCount = loads.length + w.request.hook.sig.hasThis.toNat
  gives : (!w.request.hook.sig.ret.isVoid) = w.target.returnsValue
  returnsValue : a'.returnsValue = w.target.returnsValue
  balanced : ∃ depth, a'.body.instructions.Balanced a'.returnsValue a'.body.handlerEntries depth

variable {w : Weaving} {target' : MethodDeclaration} {a a' : Activation M}

/-- A postfix weave that goes well puts the hook in place of the last return. -/
lemma behind_of_weave (h : w.weave true = .ok target') (kind : w.request.kind = .after)
    (params : w.request.hook.sig.params = w.request.hookParams.map (·.type))
    (named : a.body.HandedOut) (of : a.Of w.target) (of' : a'.Of target') (args : a'.args = a.args)
    (locals : a'.locals = a.locals) :
    ∃ pre last loads, w.Behind a a' pre last loads ∧ last.op = .ret
      ∧ a'.body.locals = a.body.locals := by
  obtain ⟨checked, body', rfl, _, after⟩ := of_weave_eq_ok h
  obtain ⟨_, _, fits, result⟩ := of_check_eq_ok checked
  obtain ⟨body, pre, last, code, there, was, isRet, written, items, clauses, declared, m, computed,
    _⟩ := of_bodyAfter_eq_ok (after kind)
  obtain ⟨loads, loaded, rfl⟩ := epilogue_eq_ok written
  cases of.body.symm.trans there
  cases of'.body
  have same : w.request.hook.sig.ret = w.target.ret := by
    unfold checkReturn at result
    split_ifs at result with differ
    · cases result
    · by_contra other
      exact differ ⟨kind, other⟩
  refine ⟨pre, last, loads, ⟨⟨was, items, clauses, of'.returnsValue.trans of.returnsValue.symm, args,
    locals, by simp⟩, named, loaded, fun memory => ?_, ?_, ?_, of'.returnsValue, ?_⟩, isRet, declared⟩
  · have given : w.givenAfter a memory = w.givenFrom a' memory none 0 w.request.hookParams := by
      rw [givenFrom_none, args]
      simp only [Nat.zero_add]
      rfl
    rw [given]
    refine pushes_loads loaded fits (args ▸ of.args) .none fun p _ => ?_
    unfold givesResult
    rw [kind]
    simp
  · rw [MethodSig.argCount, params, List.length_map, (plain_loads loaded).1]
  · rw [same]
    rfl
  · rw [of'.returnsValue]
    refine InstructionList.balanced_of_maxStack computed ?_
    refine List.isEmpty_eq_false_iff.2 fun empty => ?_
    rw [items] at empty
    obtain ⟨_, none⟩ := List.append_eq_nil_iff.1 empty
    have size := congrArg List.length none
    rw [InstructionList.length_number] at size
    simp at size

/-! ## Dropping the result -/

variable {s s' : State M} {returnsValue : Bool} {d : Nat}

lemma plain_drop (w : Weaving) : ∀ c ∈ w.drop, Plain c := by
  intro c hc
  unfold drop at hc
  split_ifs at hc
  · cases List.mem_singleton.1 hc
    exact ⟨rfl, rfl⟩
  · cases hc

lemma lifts_drop : Lifts returnsValue w.drop d (d - w.target.returnsValue.toNat) := by
  unfold drop
  cases w.target.returnsValue with
  | true => exact ⟨⟨1, 0⟩, rfl, rfl⟩
  | false => rfl

lemma through_drop (enough : w.target.returnsValue.toNat ≤ s.stack.length) :
    a'.Through w.drop s s'
      ↔ s' = s.becomes (s.stack.drop w.target.returnsValue.toNat) s.memory := by
  unfold drop
  cases returns : w.target.returnsValue with
  | false => rfl
  | true =>
    rw [returns] at enough
    obtain ⟨value, stack, top⟩ := List.exists_cons_of_length_pos enough
    rw [top]
    constructor
    · rintro ⟨stack', memory, does, rfl⟩
      rw [Activation.does_routine (r := .discard) rfl, Activation.turn, top] at does
      cases does
      rfl
    · rintro rfl
      refine ⟨stack, s.memory, ?_, rfl⟩
      rw [Activation.does_routine (r := .discard) rfl, Activation.turn, top]

lemma steady_drop {raises : M.Value → M.Memory → Prop}
    (enough : w.target.returnsValue.toNat ≤ s.stack.length) : a'.Steady raises w.drop s := by
  unfold drop
  cases returns : w.target.returnsValue with
  | false => exact trivial
  | true =>
    rw [returns] at enough
    obtain ⟨value, stack, top⟩ := List.exists_cons_of_length_pos enough
    intro t does
    rw [Activation.does_routine (r := .discard) rfl, Activation.turn, top] at does
    exact .inl ⟨stack, s.memory, does, trivial⟩

/-- What the hook is called on is at most one value. -/
lemma reverse_receiver (w : Weaving) (s : State M) : (w.receiver s).reverse = w.receiver s := by
  unfold receiver
  cases w.request.hook.sig.hasThis with
  | false => rfl
  | true =>
    cases s.stack.drop w.target.returnsValue.toNat with
    | nil => rfl
    | cons => rfl

/-! ## At the last return -/

variable {pre : List Instruction} {last : Instruction} {loads : Code} {values : List M.Value}

namespace Behind

lemma plain (h : w.Behind a a' pre last loads) : ∀ c ∈ w.drop ++ loads, Plain c :=
  List.forall_mem_append.2 ⟨w.plain_drop, (plain_loads h.loaded).2⟩

/-- Where the last return was there is a result to drop, and a receiver if the hook is called on
one. -/
lemma enough (h : w.Behind a a' pre last loads) {depth : Nat → Option Nat}
    (balanced : a'.body.instructions.Balanced a'.returnsValue a'.body.handlerEntries depth)
    (level : s.Level a'.body.instructions depth)
    (arrived : s.here = a.handOver last.id last.id) :
    w.target.returnsValue.toNat + w.request.hook.sig.hasThis.toNat ≤ s.stack.length := by
  obtain ⟨p, position, known⟩ := level.here
  obtain ⟨c, first, new⟩ := h.ends.getElem?_new
  rw [arrived] at position
  cases (InstructionList.position?_getElem new).symm.trans position
  -- The result is there to be dropped.
  have result : w.target.returnsValue.toNat ≤ s.stack.length := by
    cases returns : w.target.returnsValue with
    | false => exact Nat.zero_le _
    | true =>
      obtain ⟨effect, _, takes, enough, _⟩ := balanced.allows known new
      unfold drop at first
      rw [returns] at first
      cases first
      cases takes
      exact enough
  -- So is what the call takes besides the loads.
  have held := h.ends.holds
  have lifted := lifts_append (lifts_drop (w := w) (d := s.stack.length))
    (lifts_loads a'.returnsValue h.loaded)
  have ahead := balanced.behind (p := pre.length)
    (fun {k c} at' => ⟨_, held k c (by
      rw [List.getElem?_append_left (List.getElem?_eq_some_iff.1 at').1]
      exact at')⟩) h.plain known lifted
  have call := held (w.drop ++ loads).length w.call (by
    rw [List.getElem?_append_right (Nat.le_refl _), Nat.sub_self]
    rfl)
  obtain ⟨effect, _, takes, enough, _⟩ := balanced.allows ahead call
  cases takes
  have enough : w.request.hook.sig.argCount ≤ _ := enough
  rw [h.takes, (plain_loads h.loaded).1] at enough
  omega

lemma pushes_given (h : w.Behind a a' pre last loads) {memory : M.Memory}
    (given : values.map some = w.givenAfter a memory) :
    List.Forall₂ (a'.Pushes memory) loads values ∧ values.length = loads.length := by
  obtain ⟨values', given', pushed⟩ := h.pushes memory
  have same : values = values' := List.map_injective_iff.2 (fun _ _ => Option.some.inj)
    (given.trans given'.symm)
  rw [same]
  exact ⟨pushed, pushed.length_eq.symm⟩

/-- The code in front of the call runs through, with what the hook is given on the stack in place of
the result. -/
lemma through_front (h : w.Behind a a' pre last loads)
    (enough : w.target.returnsValue.toNat ≤ s.stack.length) :
    a'.Through (w.drop ++ loads) s s' ↔ ∃ values : List M.Value,
      values.map some = w.givenAfter a s.memory
        ∧ s' = w.atCall s values := by
  have rest (values : List M.Value) (pushed : List.Forall₂ (a'.Pushes s.memory) loads values) :
      a'.Through loads (s.becomes (s.stack.drop w.target.returnsValue.toNat) s.memory) s'
        ↔ s' = w.atCall s values := Activation.through_pushes pushed rfl
  rw [Activation.through_append]
  constructor
  · rintro ⟨s₁, first, second⟩
    cases (through_drop enough).1 first
    obtain ⟨values, given, pushed⟩ := h.pushes s.memory
    exact ⟨values, given, (rest values pushed).1 second⟩
  · rintro ⟨values, given, same⟩
    exact ⟨_, (through_drop enough).2 rfl, (rest values (h.pushes_given given).1).2 same⟩

lemma steady_front (h : w.Behind a a' pre last loads)
    (enough : w.target.returnsValue.toNat ≤ s.stack.length) :
    a'.Steady (fun _ _ => False) (w.drop ++ loads) s := by
  refine Activation.steady_append (steady_drop enough) fun s₁ through => ?_
  cases (through_drop enough).1 through
  obtain ⟨values, _, pushed⟩ := h.pushes s.memory
  exact Activation.steady_pushes pushed rfl

/-- At the call the hook is called on the receiver and on what it is given, and returns or raises.
-/
lemma step_call (h : w.Behind a a' pre last loads) {j : Instruction} {calls : List (Call M.Value)}
    {c : Configuration M}
    (enough : w.target.returnsValue.toNat + w.request.hook.sig.hasThis.toNat ≤ s.stack.length)
    (given : values.map some = w.givenAfter a s.memory)
    (here : a'.body.instructions.items[pre.length + (w.drop ++ loads).length]? = some j) :
    a'.Step ((w.atCall s values).moveTo j.id) calls c ↔
      calls = [⟨w.request.hook, w.receiver s ++ values⟩] ∧ ∃ t,
        ((∃ pushed memory, t = .next (pushed ++ s.stack.drop (w.target.returnsValue.toNat
              + w.request.hook.sig.hasThis.toNat)) memory
            ∧ pushed.length = w.target.returnsValue.toNat
            ∧ M.exec .call (.method w.request.hook) (values.reverse ++ w.receiver s) s.control s.memory
              (.next pushed memory))
          ∨ ∃ exception memory, t = .raise exception memory
            ∧ M.exec .call (.method w.request.hook) (values.reverse ++ w.receiver s) s.control s.memory
              (.raise exception memory))
        ∧ a'.Lands j ((w.atCall s values).moveTo j.id) t c := by
  have size : w.request.hook.sig.argCount
      = values.reverse.length + w.request.hook.sig.hasThis.toNat := by
    rw [h.takes, List.length_reverse, (h.pushes_given given).2]
  have deep : w.request.hook.sig.argCount ≤ (w.atCall s values).stack.length := by
    show _ ≤ (values.reverse ++ s.stack.drop _).length
    rw [size, List.length_append, List.length_drop]
    omega
  have taken : (w.atCall s values).stack.take w.request.hook.sig.argCount
      = values.reverse ++ w.receiver s := by
    rw [size]
    exact List.take_length_add_append _
  have left : (w.atCall s values).stack.drop w.request.hook.sig.argCount
      = s.stack.drop (w.target.returnsValue.toNat + w.request.hook.sig.hasThis.toNat) := by
    rw [size]
    exact (List.drop_length_add_append _).trans List.drop_drop
  have at' : (w.drop ++ loads ++ [w.call, (.ret, .none)])[(w.drop ++ loads).length]? = some w.call := by
    rw [List.getElem?_append_right (Nat.le_refl _), Nat.sub_self]
    rfl
  rw [Activation.step_held h.ends.holds at' here]
  show _ = a'.calls (.ofCode _ (.call, .method w.request.hook)) _ ∧ _ ↔ _
  rw [Activation.calls_call deep, taken, List.reverse_append, List.reverse_reverse, reverse_receiver,
    ← h.gives]
  refine and_congr_right fun _ => exists_congr fun t => and_congr_left fun _ => ?_
  show a'.Does (.ofCode _ (.call, .method w.request.hook)) _ t ↔ _
  rw [Activation.does_call deep, taken, left, h.gives]
  rfl

lemma step_return (h : w.Behind a a' pre last loads) {j : Instruction} {calls : List (Call M.Value)}
    {c : Configuration M} {pushed stack : List M.Value} {control : M.Control} {left : List InstrId}
    {memory : M.Memory} (count : pushed.length = w.target.returnsValue.toNat)
    (here : a'.body.instructions.items[pre.length + ((w.drop ++ loads).length + 1)]? = some j) :
    a'.Step ⟨j.id, pushed ++ stack, control, left, memory⟩ calls c
      ↔ calls = [] ∧ c = .returned pushed memory := by
  have at' : (w.drop ++ loads ++ [w.call, (.ret, .none)])[(w.drop ++ loads).length + 1]?
      = some (.ret, .none) := by
    rw [List.getElem?_append_right (Nat.le_succ _), Nat.succ_sub (Nat.le_refl _), Nat.sub_self]
    rfl
  have returned : (pushed ++ stack).take a'.returnsValue.toNat = pushed := by
    rw [h.returnsValue, ← count, List.take_left]
  have enough : ¬ (pushed ++ stack).length < a'.returnsValue.toNat := by
    rw [h.returnsValue, List.length_append]
    omega
  refine (Activation.step_held (s := ⟨j.id, pushed ++ stack, control, left, memory⟩) h.ends.holds at'
    here).trans (and_congr_right fun _ => ?_)
  simp only [Activation.does_routine (i := .ofCode _ (.ret, .none)) (r := .ret) rfl, Activation.turn,
    enough, if_false, exists_eq_left, returned]
  exact Activation.lands_ret

lemma getElem?_tail (h : w.Behind a a' pre last loads) {k : Nat}
    (bound : k < (w.drop ++ loads).length + 2) :
    ∃ j, a'.body.instructions.items[pre.length + k]? = some j := by
  have inside : k < (w.drop ++ loads ++ [w.call, (.ret, .none)]).length := by
    rw [List.length_append]
    exact bound
  exact ⟨_, h.ends.holds k _ (List.getElem?_eq_getElem inside)⟩

end Behind

/-! ## From the last return on -/

/-- Where a run of the woven body may stand that has come to the last return in some state, with the
calls that it has made since. -/
inductive Ending (w : Weaving) (a a' : Activation M) (pre : List Instruction) (last : Instruction)
    (loads : Code) (s : State M) : List (Call M.Value) → State M → Prop where
  | preparing {before after : Code} {s' : State M} {j : Instruction}
      (split : w.drop ++ loads = before ++ after)
      (through : a'.Through before (s.relabel (a.handOver last.id)) s')
      (steady : a'.Steady (fun _ _ => False) after s')
      (here : a'.body.instructions.items[pre.length + before.length]? = some j) :
      w.Ending a a' pre last loads s [] (s'.moveTo j.id)
  | returning {values pushed stack : List M.Value} {memory : M.Memory} {j : Instruction}
      (called : w.CallsAfter a s values (.next pushed memory))
      (count : pushed.length = w.target.returnsValue.toNat)
      (here : a'.body.instructions.items[pre.length + ((w.drop ++ loads).length + 1)]? = some j) :
      w.Ending a a' pre last loads s [⟨w.request.hook, values⟩] ⟨j.id, pushed ++ stack, s.control,
        s.left.map (a.handOver last.id), memory⟩

namespace Behind

variable {calls more : List (Call M.Value)} {c : Configuration M}

/-- On arrival nothing is done yet. -/
lemma ending_arrived (h : w.Behind a a' pre last loads) (arrived : s.here = last.id)
    (enough : w.target.returnsValue.toNat ≤ s.stack.length) :
    w.Ending a a' pre last loads s [] (s.relabel (a.handOver last.id)) := by
  obtain ⟨c, _, new⟩ := h.ends.getElem?_new
  have same : (s.relabel (a.handOver last.id)).moveTo
      (a.handOver last.id last.id)
        = s.relabel (a.handOver last.id) := by
    rw [← arrived]
    rfl
  rw [← same]
  exact .preparing (List.nil_append _).symm rfl (h.steady_front enough) new

/-- From the last return a run of the woven body goes on in the new code, or has done what takes the
place of the return. -/
lemma step_ending (h : w.Behind a a' pre last loads) (arrived : s.here = last.id)
    (enough : w.target.returnsValue.toNat + w.request.hook.sig.hasThis.toNat ≤ s.stack.length)
    (ending : w.Ending a a' pre last loads s more s') (step : a'.Step s' calls c) :
    (∃ s'', c = .running s'' ∧ w.Ending a a' pre last loads s (more ++ calls) s'')
      ∨ ∃ c', w.StepAfter a last.id s (more ++ calls) c'
        ∧ c = c'.relabel (a.handOver last.id) := by
  have result := Nat.le_trans (Nat.le_add_right _ _) enough
  cases ending with
  | @preparing before after s₁ j split through steady here =>
    cases after with
    | cons code after =>
      have held := h.ends.holds
      rw [split, List.append_assoc] at held
      have bound : before.length + 1 < (w.drop ++ loads).length + 2 := by
        rw [split]
        simp only [List.length_append, List.length_cons]
        omega
      obtain ⟨j', behind⟩ := h.getElem?_tail bound
      have plain := h.plain code (split ▸ List.mem_append_right _ List.mem_cons_self)
      obtain ⟨rfl, ⟨s₂, rfl, through', steady'⟩ | ⟨_, _, fails, _⟩⟩ :=
        Activation.step_steady held plain steady here behind step
      · have behind' : a'.body.instructions.items[pre.length + (before ++ [code]).length]?
            = some j' := by
          rw [List.length_append]
          exact behind
        exact .inl ⟨_, rfl, .preparing (split.trans (List.append_cons _ _ _))
          (Activation.through_append.2 ⟨s₁, through, through'⟩) steady' behind'⟩
      · exact fails.elim
    | nil =>
      rw [List.append_nil] at split
      cases split
      obtain ⟨values, given, rfl⟩ :=
        (h.through_front (s := s.relabel (a.handOver last.id)) result).1 through
      obtain ⟨rfl, t, outcome, lands⟩ :=
        (h.step_call (s := s.relabel (a.handOver last.id)) enough given here).1 step
      obtain ⟨pushed, memory, rfl, count, executed⟩ | ⟨exception, memory, rfl, executed⟩ := outcome
      · obtain ⟨j', behind⟩ := h.getElem?_tail (Nat.lt_succ_self ((w.drop ++ loads).length + 1))
        cases (Activation.lands_next here behind).1 lands
        exact .inl ⟨_, rfl, .returning (.call given executed) count behind⟩
      · obtain ⟨c', routed, same⟩ := (h.ends.routes_iff (s := { s with memory := memory }) h.named
          (by simp) here arrived).1 (Activation.lands_raise.1 lands)
        exact .inr ⟨c', .raises arrived (.call given executed) routed, same⟩
  | returning called count here =>
    obtain ⟨rfl, rfl⟩ := (h.step_return count here).1 step
    exact .inr ⟨_, .returns arrived called count, rfl⟩

/-! ## The simulation -/

/-- From the last return a run of the woven body comes to the call. -/
lemma run_front (h : w.Behind a a' pre last loads) {j : Instruction} (arrived : s.here = last.id)
    (enough : w.target.returnsValue.toNat ≤ s.stack.length)
    (given : values.map some = w.givenAfter a s.memory)
    (here : a'.body.instructions.items[pre.length + (w.drop ++ loads).length]? = some j) :
    Run a'.Step (.running (s.relabel (a.handOver last.id))) []
      (.running ((w.atCall (s.relabel (a.handOver last.id)) values).moveTo j.id)) := by
  obtain ⟨c, _, new⟩ := h.ends.getElem?_new
  have through := (h.through_front (s := s.relabel (a.handOver last.id)) enough).2
    ⟨values, given, rfl⟩
  have run := Activation.run_held h.ends.holds h.plain through new here
  have same : (s.relabel (a.handOver last.id)).moveTo
      (a.handOver last.id last.id)
        = s.relabel (a.handOver last.id) := by
    rw [← arrived]
    rfl
  rw [← same]
  exact run

/-- What takes the place of the last return is done by a run of the woven body. -/
lemma run_of_stepAfter (h : w.Behind a a' pre last loads) (arrived : s.here = last.id)
    (enough : w.target.returnsValue.toNat + w.request.hook.sig.hasThis.toNat ≤ s.stack.length)
    (step : w.StepAfter a last.id s calls c) :
    Run a'.Step (.running (s.relabel (a.handOver last.id))) calls
      (c.relabel (a.handOver last.id)) := by
  have result := Nat.le_trans (Nat.le_add_right _ _) enough
  obtain ⟨j, here⟩ := h.getElem?_tail (k := (w.drop ++ loads).length) (by omega)
  obtain ⟨j', behind⟩ := h.getElem?_tail (k := (w.drop ++ loads).length + 1) (by omega)
  cases step with
  | elsewhere other => exact absurd arrived other
  | returns _ called count =>
    cases called with
    | call given executed =>
      have called := (h.step_call (s := s.relabel (a.handOver last.id)) enough given
        here).2 ⟨rfl, _, .inl ⟨_, _, rfl, count, executed⟩, (Activation.lands_next here behind).2 rfl⟩
      exact ((h.run_front arrived result given here).trans (.single called)).trans
        (.single ((h.step_return count behind).2 ⟨rfl, rfl⟩))
  | @raises _ _ memory _ _ called routed =>
    cases called with
    | call given executed =>
      have called := (h.step_call (s := s.relabel (a.handOver last.id)) enough given
        here).2 ⟨rfl, _, .inr ⟨_, _, rfl, executed⟩, Activation.lands_raise.2
          ((h.ends.routes_iff (s := { s with memory := memory }) h.named (by simp) here arrived).2
            ⟨_, routed, rfl⟩)⟩
      exact (h.run_front arrived result given here).trans (.single called)

variable {first first' : Instruction} {control : M.Control} {memory : M.Memory}

/-- On arrival at the last return there is a result to drop, and a receiver if the hook is called on
one. -/
lemma enough_of_run (h : w.Behind a a' pre last loads)
    (head : a'.body.instructions.items[0]? = some first')
    (run : Run a'.Step (.running (.start first'.id control memory)) calls
      (.running (s.relabel (a.handOver last.id)))) (arrived : s.here = last.id) :
    w.target.returnsValue.toNat + w.request.hook.sig.hasThis.toNat ≤ s.stack.length := by
  obtain ⟨depth, balanced⟩ := h.balanced
  have level := State.Level.run balanced head run rfl
  exact h.enough (s := s.relabel (a.handOver last.id)) balanced level
    (congrArg (a.handOver last.id) arrived)

/-- A step of the target with the hook in place of the last return names what was handed out. -/
lemma handedOut_of_stepAfter (h : w.Behind a a' pre last loads)
    (out : s.HandedOut a.body.instructions) (step : w.StepAfter a last.id s calls c) :
    c.HandedOut a.body.instructions := by
  cases step with
  | elsewhere _ step => exact step.handedOut h.named out
  | returns => exact nofun
  | @raises _ _ memory _ _ _ routed =>
    exact routed.handedOut h.named (s := { s with memory := memory }) ⟨out.here, out.left⟩

lemma handedOut_of_run (h : w.Behind a a' pre last loads)
    (begins : first ∈ a.body.instructions.items)
    (run : Run (w.StepAfter a last.id) (.running (.start first.id control memory)) calls c) :
    c.HandedOut a.body.instructions :=
  Activation.run_handedOut h.handedOut_of_stepAfter (State.handedOut_start control memory begins) run

/-- A run of the target with the hook in place of the last return is one of the woven body. -/
lemma run_of_after (h : w.Behind a a' pre last loads)
    (begins : first ∈ a.body.instructions.items)
    (head : a'.body.instructions.items[0]? = some first')
    (same : first'.id = a.handOver last.id first.id)
    (run : Run (w.StepAfter a last.id) (.running (.start first.id control memory)) calls c) :
    Run a'.Step (.running (.start first'.id control memory)) calls
      (c.relabel (a.handOver last.id)) := by
  induction run with
  | refl =>
    rw [same]
    exact .refl
  | @snoc s trace calls c before step ih =>
    by_cases arrived : s.here = last.id
    · have enough := h.enough_of_run head ih arrived
      exact ih.trans (h.run_of_stepAfter arrived enough step)
    · cases step with
      | elsewhere _ step =>
        have out := h.handedOut_of_run begins before _ rfl
        exact ih.snoc ((h.ends.embeds h.named).step_iff arrived out |>.2 ⟨_, step, rfl⟩)
      | returns here => exact absurd here arrived
      | raises here => exact absurd here arrived

end Behind

/-- How far a run of the woven body has come. It is a run of the target with the hook in place of
the last return, up to new identities, or is between the last return and what takes its place. -/
inductive Trails (w : Weaving) (a : Activation M) (last : InstrId) (start : Configuration M) :
    List (Call M.Value) → Configuration M → Prop where
  | along {calls : List (Call M.Value)} {c : Configuration M}
      (run : Run (w.StepAfter a last) start calls c) :
      w.Trails a last start calls (c.relabel (a.handOver last))
  | ending {calls more : List (Call M.Value)} {s s' : State M}
      (run : Run (w.StepAfter a last) start calls (.running s)) (arrived : s.here = last)
      (inside : ¬ a.body.instructions.contains s'.here)
      (made : more = [] ∨ ∃ values pushed memory, w.CallsAfter a s values (.next pushed memory)
        ∧ more = [⟨w.request.hook, values⟩]) :
      w.Trails a last start (calls ++ more) (.running s')

/-- The same, with what has been done in the new code so far. -/
inductive Tracks (w : Weaving) (a a' : Activation M) (pre : List Instruction) (last : Instruction)
    (loads : Code) (start : Configuration M) : List (Call M.Value) → Configuration M → Prop where
  | along {calls : List (Call M.Value)} {c : Configuration M}
      (run : Run (w.StepAfter a last.id) start calls c) :
      w.Tracks a a' pre last loads start calls (c.relabel (a.handOver last.id))
  | ending {calls more : List (Call M.Value)} {s s' : State M}
      (run : Run (w.StepAfter a last.id) start calls (.running s)) (arrived : s.here = last.id)
      (ending : w.Ending a a' pre last loads s more s') :
      w.Tracks a a' pre last loads start (calls ++ more) (.running s')

namespace Behind

variable {calls more : List (Call M.Value)} {c : Configuration M} {first first' : Instruction}
  {control : M.Control} {memory : M.Memory} {start : Configuration M}

lemma trails_of_tracks (h : w.Behind a a' pre last loads)
    (tracks : w.Tracks a a' pre last loads start calls c) : w.Trails a last.id start calls c := by
  cases tracks with
  | along run => exact .along run
  | ending run arrived ending =>
    cases ending with
    | @preparing before after _ j split _ _ here =>
      refine .ending run arrived (h.ends.not_contains_tail ?_ here) (.inl rfl)
      rw [split]
      simp only [List.length_append, List.length_cons]
      omega
    | returning called _ here =>
      refine .ending run arrived (h.ends.not_contains_tail ?_ here) (.inr ⟨_, _, _, called, rfl⟩)
      simp only [List.length_append, List.length_cons]
      omega

/-- From the last return a step of the woven body leads on. -/
lemma tracks_ending (h : w.Behind a a' pre last loads) {trace : List (Call M.Value)}
    (enough : w.target.returnsValue.toNat + w.request.hook.sig.hasThis.toNat ≤ s.stack.length)
    (run : Run (w.StepAfter a last.id) start trace (.running s)) (arrived : s.here = last.id)
    (ending : w.Ending a a' pre last loads s more s') (step : a'.Step s' calls c) :
    w.Tracks a a' pre last loads start (trace ++ more ++ calls) c := by
  rw [List.append_assoc]
  obtain ⟨s'', rfl, ending'⟩ | ⟨c', done, rfl⟩ := h.step_ending arrived enough ending step
  · exact .ending run arrived ending'
  · exact .along (run.snoc done)

/-- Every run of the woven body is tracked. -/
lemma tracks_of_run (h : w.Behind a a' pre last loads)
    (begins : first ∈ a.body.instructions.items)
    (head : a'.body.instructions.items[0]? = some first')
    (same : first'.id = a.handOver last.id first.id)
    (run : Run a'.Step (.running (.start first'.id control memory)) calls c) :
    w.Tracks a a' pre last loads (.running (.start first.id control memory)) calls c := by
  induction run with
  | refl =>
    rw [same]
    exact .along (c := .running (.start first.id control memory)) .refl
  | @snoc s' trace calls c run step ih =>
    generalize running : Configuration.running s' = c' at ih
    cases ih with
    | ending along arrived ending =>
      cases running
      have enough := h.enough_of_run head (h.run_of_after begins head same along) arrived
      exact h.tracks_ending enough along arrived ending step
    | @along trace c along =>
      cases c with
      | returned | escaped | wrong => cases running
      | running s =>
        cases running
        by_cases arrived : s.here = last.id
        · have enough := h.enough_of_run head run arrived
          have ending := h.ending_arrived arrived (Nat.le_trans (Nat.le_add_right _ _) enough)
          have tracks := h.tracks_ending enough along arrived ending step
          rw [List.append_nil] at tracks
          exact tracks
        · have out := h.handedOut_of_run begins along _ rfl
          obtain ⟨c, step', rfl⟩ := ((h.ends.embeds h.named).step_iff arrived out).1 step
          exact .along (along.snoc (.elsewhere arrived step'))

end Behind

/-- A postfix weave is a simulation. Take any machine, and activations of the target and of the
woven body with the same arguments and locals. What the target names was handed out.

Where a run of the target comes to its last return, there is a result to drop and there is what the
hook is given. Every run of the target with the hook in place of the last return is one of the woven
body, up to the identity of the last return, and so is every run that does not come there. Every run
of the woven body from its first instruction is such a run, or is between the last return and what
takes its place. -/
theorem weave_after_simulates (h : w.weave true = .ok target') (kind : w.request.kind = .after)
    (params : w.request.hook.sig.params = w.request.hookParams.map (·.type))
    (named : a.body.HandedOut) (of : a.Of w.target) (of' : a'.Of target') (args : a'.args = a.args)
    (locals : a'.locals = a.locals) (control : M.Control) (memory : M.Memory) :
    ∃ first first' last, a.body.instructions.first? = some first
      ∧ a'.body.instructions.first? = some first'
      ∧ a.body.instructions.last? = some last ∧ last.op = .ret
      ∧ a'.body.locals = a.body.locals
      ∧ (∀ calls s, Run (w.StepAfter a last.id) (.running (.start first.id control memory)) calls
            (.running s) → s.here = last.id →
          w.target.returnsValue.toNat + w.request.hook.sig.hasThis.toNat ≤ s.stack.length
            ∧ ∃ values : List M.Value, values.map some = w.givenAfter a s.memory)
      ∧ (∀ calls c, Run (w.StepAfter a last.id) (.running (.start first.id control memory)) calls c →
          Run a'.Step (.running (.start first'.id control memory)) calls
            (c.relabel (a.handOver last.id)))
      ∧ (∀ calls c, Run (fun s calls c => s.here ≠ last.id ∧ a.Step s calls c)
            (.running (.start first.id control memory)) calls c →
          Run a'.Step (.running (.start first'.id control memory)) calls
            (c.relabel (a.handOver last.id)))
      ∧ ∀ calls c, Run a'.Step (.running (.start first'.id control memory)) calls c →
          w.Trails a last.id (.running (.start first.id control memory)) calls c := by
  obtain ⟨pre, last, loads, behind, isRet, declared⟩ :=
    behind_of_weave h kind params named of of' args locals
  obtain ⟨first, head⟩ : ∃ first, a.body.instructions.items[0]? = some first := by
    rw [behind.ends.was]
    cases pre with
    | nil => exact ⟨_, rfl⟩
    | cons => exact ⟨_, rfl⟩
  have begins := List.mem_of_getElem? head
  obtain ⟨first', head', same⟩ := behind.ends.id_getElem? head
  refine ⟨first, first', last, ?_, ?_, ?_, isRet, declared, fun calls s run arrived => ⟨?_, ?_⟩,
    fun calls c run => ?_, fun calls c run => ?_, fun calls c run => ?_⟩
  · exact List.head?_eq_getElem?.trans head
  · exact List.head?_eq_getElem?.trans head'
  · show a.body.instructions.items.getLast? = _
    rw [behind.ends.was, List.getLast?_append]
    rfl
  · exact behind.enough_of_run head' (behind.run_of_after begins head' same run) arrived
  · obtain ⟨values, given, _⟩ := behind.pushes s.memory
    exact ⟨values, given⟩
  · exact behind.run_of_after begins head' same run
  · refine behind.run_of_after begins head' same (run.mono fun step => ?_)
    exact .elsewhere step.1 step.2
  · exact behind.trails_of_tracks (behind.tracks_of_run begins head' same run)

/-! ## Examples -/

namespace Example

open HookWeave.Example

/-- Takes the amount and gives another price. -/
def surcharge : MethodRef :=
  ⟨⟨"Patches", "", "Hooks"⟩, "Surcharge", ⟨false, .prim .int32, [.prim .int32]⟩⟩

/-- The surcharge behind the price. -/
def surcharging : Weaving :=
  ⟨{}, ⟨"Shop", "", "Till"⟩, price, ⟨⟨"Shop", "", "Till"⟩, "Price", surcharge,
    [⟨"amount", .prim .int32⟩], true, .after, []⟩⟩

/-- The instructions of the woven price. -/
def surcharged : InstructionList where
  items := ⟨⟨0⟩, .ldarg0, .none⟩ :: InstructionList.number 2
    [(.pop, .none), (.ldarg0, .none), (.call, .method surcharge), (.ret, .none)]
  nextId := 6
  nodup := by decide
  below := by decide

/-- The body of the woven price. -/
def surchargedBody : MethodBody :=
  ⟨1, false, [], surcharged, []⟩

lemma weave_surcharging : surcharging.weave true
    = .ok { price with body := some surchargedBody } := by
  have checked : surcharging.check = .ok () := by decide +kernel
  refine bind_eq_ok.2 ⟨(), checked, bind_eq_ok.2 ⟨surchargedBody, ?_, rfl⟩⟩
  refine bind_eq_ok.2 ⟨priceBody, rfl, bind_eq_ok.2 ⟨[(.pop, .none), (.ldarg0, .none),
    (.call, .method surcharge), (.ret, .none)], by decide +kernel, ?_⟩⟩
  refine bind_eq_ok.2 ⟨{ surchargedBody with maxStack := 0 }, by decide +kernel, ?_⟩
  exact surcharging.balanced_of_within 20 (m := 1) rfl (by decide +kernel)

/-- The surcharge is called with the amount in place of the return, and what it gives is returned.
-/
theorem price_surcharged :
    surcharging.weave true = .ok { price with body := some surchargedBody }
      ∧ surcharging.request.hook.sig.params = surcharging.request.hookParams.map (·.type)
      ∧ priceBody.HandedOut
      ∧ Run (atTill surchargedBody []).Step (.running (.start ⟨0⟩ () [5])) [⟨surcharge, [(5 : Int)]⟩]
          (.returned [(10 : Int)] [5]) := by
  have named : priceBody.HandedOut := ⟨by decide, by decide⟩
  refine ⟨weave_surcharging, rfl, named, ?_⟩
  obtain ⟨first, first', last, begins, begins', ends, _, _, _, runs, _⟩ :=
    weave_after_simulates weave_surcharging rfl rfl named
      (⟨rfl, rfl, rfl, rfl⟩ : (atTill priceBody []).Of price)
      (⟨rfl, rfl, rfl, rfl⟩ : (atTill surchargedBody []).Of
        { price with body := some surchargedBody }) rfl rfl () ([5] : List Int)
  cases begins
  cases begins'
  cases ends
  let s : State till := ⟨⟨1⟩, [(5 : Int)], (), [], [5]⟩
  have loaded : (atTill priceBody []).Step (.start ⟨0⟩ () [5]) [] (.running s) :=
    .execute (i := ⟨⟨0⟩, .ldarg0, .none⟩) rfl rfl (.next rfl)
  let values : List till.Value := [(5 : Int)]
  have given : values.map some = surcharging.givenAfter (atTill priceBody []) s.memory := rfl
  have called : surcharging.CallsAfter (atTill priceBody []) s (surcharging.receiver s ++ values)
      (.next [(10 : Int)] [5]) := .call given ⟨rfl, rfl⟩
  exact runs _ _ ((Run.single (.elsewhere (by decide) loaded)).snoc (.returns rfl called rfl))

/-- The body of a greeted visit, where a branch leads to the return behind the greeting. -/
def passedBody : MethodBody where
  maxStack := 1
  initLocals := false
  locals := []
  instructions := {
    items := [⟨⟨0⟩, .ldarg0, .none⟩, ⟨⟨1⟩, .brtrueShort, .target ⟨4⟩⟩, ⟨⟨3⟩, .call, .method greet⟩,
      ⟨⟨4⟩, .ret, .none⟩]
    nextId := 5
    nodup := by decide
    below := by decide }
  clauses := []

/-- The branch leads past the greeting. -/
lemma run_passed :
    Run (atDoor passedBody).Step (.running (.start ⟨0⟩ () ([1] : List Int))) []
      (.returned [] ([1] : List Int)) := by
  let asked : State till := ⟨⟨1⟩, [(1 : Int)], (), [], ([1] : List Int)⟩
  have loaded : (atDoor passedBody).Step (.start ⟨0⟩ () ([1] : List Int)) [] (.running asked) :=
    .execute (i := ⟨⟨0⟩, .ldarg0, .none⟩) rfl rfl (.next rfl)
  have branched : (atDoor passedBody).Step asked [] (.running (.start ⟨4⟩ () ([1] : List Int))) :=
    .execute (i := ⟨⟨1⟩, .brtrueShort, .target ⟨4⟩⟩) rfl rfl (.jump rfl rfl)
  have returned : (atDoor passedBody).Step (.start ⟨4⟩ () ([1] : List Int)) []
      (.returned [] ([1] : List Int)) := .execute (i := ⟨⟨4⟩, .ret, .none⟩) rfl rfl .ret
  exact ((Run.single loaded).snoc branched).snoc returned

/-- A visit that branches to an identity which the woven return then gets returns without a greeting,
though no run of it comes to its last return, or to any. -/
theorem stray_visit_passes_greeting :
    (greeting.onto (visitOf (branching ⟨4⟩))).weave true = .ok (visitOf passedBody)
      ∧ greeting.request.kind = .after
      ∧ greeting.request.hook.sig.params = greeting.request.hookParams.map (·.type)
      ∧ (atDoor (branching ⟨4⟩)).Of (visitOf (branching ⟨4⟩))
      ∧ (atDoor passedBody).Of (visitOf passedBody)
      ∧ Run (atDoor passedBody).Step (.running (.start ⟨0⟩ () ([1] : List Int))) []
          (.returned [] ([1] : List Int))
      ∧ (branching ⟨4⟩).instructions.last?.map (·.id) = some ⟨2⟩
      ∧ ∀ calls c, Run (atDoor (branching ⟨4⟩)).Step (.running (.start ⟨0⟩ () ([1] : List Int)))
          calls c → (∀ s, c = .running s → s.here ≠ ⟨2⟩) ∧ ∀ values memory, c ≠ .returned values memory := by
  refine ⟨weave_greeting_onto ⟨⟨2⟩, .ret, .none⟩ rfl (by decide +kernel) rfl (by decide +kernel), rfl, rfl,
    ⟨rfl, rfl, rfl, rfl⟩, ⟨rfl, rfl, rfl, rfl⟩, run_passed, rfl, fun calls c run => ?_⟩
  obtain ⟨_, rfl | rfl | rfl⟩ := runs_branching rfl run
  · refine ⟨?_, nofun⟩
    rintro _ ⟨rfl⟩
    decide
  · refine ⟨?_, nofun⟩
    rintro _ ⟨rfl⟩
    decide
  · exact ⟨nofun, nofun⟩

end Example

end Weaving
end HookWeave

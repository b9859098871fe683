import HookWeave.Proofs.Weaving.Ahead
import HookWeave.Proofs.Weaving.Returns

/-!
# Hooks that run before their target

A run of a body with a hook ahead of it calls the hook once and then either returns what is in the
local for the result, or goes on as a run of the target from its first instruction
(`weave_before_simulates`). The target has to name only what it has handed out: a branch to an identity
that is still to come may lead into the code of the hook (`Example.stray_visit_greets_twice`).
-/

namespace HookWeave
namespace Weaving

variable {M : Machine}

/-- Some outcome of the call of the hook, with what it is given once the local for the result is
prepared. -/
inductive CallsHook (w : Weaving) (a : Activation M) (result : Option M.Cell) (control : M.Control)
    (memory : M.Memory) : List M.Value → Outcome M.Value M.Memory → Prop where
  | call {prepared : M.Memory} {values : List M.Value} {outcome : Outcome M.Value M.Memory}
      (prepares : w.Prepares result control memory prepared)
      (given : values.map some = w.given a prepared result)
      (executed : M.exec .call (.method w.request.hook) values.reverse control prepared outcome) :
      w.CallsHook a result control memory values outcome

/-- What comes after some outcome of the hook: the target is skipped if the hook may skip it and
gave false, it runs from its first instruction if the hook returned otherwise, and an exception of
the hook leaves the method. -/
inductive Continues (w : Weaving) (a : Activation M) (first : InstrId) (result : Option M.Cell)
    (control : M.Control) :
    Outcome M.Value M.Memory → List (Call M.Value) → Configuration M → Prop where
  | skips {value : M.Value} {memory : M.Memory} (asked : w.maySkip = true)
      (refused : M.isTrue value = false) :
      w.Continues a first result control (.next [value] memory) []
        (.returned (result.map (M.load memory)).toList memory)
  | proceeds {pushed : List M.Value} {memory : M.Memory} {calls : List (Call M.Value)}
      {c : Configuration M}
      (count : pushed.length = (!w.request.hook.sig.ret.isVoid).toNat)
      (accepted : w.maySkip = true → ∀ value ∈ pushed, M.isTrue value = true)
      (run : Run a.Step (.running (.start first control memory)) calls c) :
      w.Continues a first result control (.next pushed memory) calls c
  | raises {exception : M.Value} {memory : M.Memory} {c : Configuration M}
      (raised : a.RaisesAhead control exception memory c) :
      w.Continues a first result control (.raise exception memory) [] c

/-- How far a run of the woven body has come once it has left the code ahead of the target: the result
could not be prepared, or the hook was called. -/
inductive Settled (w : Weaving) (a : Activation M) (first : InstrId) (result : Option M.Cell)
    (control : M.Control) (memory : M.Memory) : List (Call M.Value) → Configuration M → Prop where
  | unprepared {exception : M.Value} {failed : M.Memory} {c : Configuration M}
      (fails : w.FailsToPrepare result control memory exception failed)
      (raised : a.RaisesAhead control exception failed c) :
      w.Settled a first result control memory [] c
  | called {values : List M.Value} {outcome : Outcome M.Value M.Memory}
      {calls : List (Call M.Value)} {c : Configuration M}
      (called : w.CallsHook a result control memory values outcome)
      (continues : w.Continues a first result control outcome calls c) :
      w.Settled a first result control memory (⟨w.request.hook, values⟩ :: calls) c

variable {w : Weaving} {a a' : Activation M} {first : Instruction} {slot : Option UInt16}
  {loads : Code} {s s' : State M} {memory : M.Memory} {values : List M.Value}

/-! ## Up to the call -/

namespace Ahead

lemma pushes_given (h : w.Ahead a a' first slot loads)
    (given : values.map some = w.given a memory (w.resultCell? a a')) :
    List.Forall₂ (a'.Pushes memory) loads values
      ∧ values.length = w.request.hook.sig.argCount := by
  obtain ⟨values', given', pushed⟩ := h.pushes memory
  have same : values = values' := List.map_injective_iff.2 (fun _ _ => Option.some.inj)
    (given.trans given'.symm)
  rw [same, h.takes]
  exact ⟨pushed, pushed.length_eq.symm⟩

/-- The code in front of the call runs through with the result prepared and what the hook is given
on the stack. -/
lemma through_front (h : w.Ahead a a' first slot loads) (empty : s.stack = []) :
    a'.Through (w.preparation slot ++ loads) s s' ↔ ∃ (prepared : M.Memory) (values : List M.Value),
      w.Prepares (w.resultCell? a a') s.control s.memory prepared
        ∧ values.map some = w.given a prepared (w.resultCell? a a')
        ∧ s' = s.becomes values.reverse prepared := by
  rw [Activation.through_append]
  constructor
  · rintro ⟨s₁, first, second⟩
    obtain ⟨prepared, prepares, rfl⟩ := (through_preparation h.cells).1 first
    obtain ⟨values, given, pushed⟩ := h.pushes prepared
    have behind := (Activation.through_pushes pushed rfl).1 second
    refine ⟨prepared, values, prepares, given, ?_⟩
    rw [behind]
    show s.becomes (values.reverse ++ s.stack) prepared = _
    rw [empty, List.append_nil]
  · rintro ⟨prepared, values, prepares, given, rfl⟩
    refine ⟨_, (through_preparation h.cells).2 ⟨prepared, prepares, rfl⟩, ?_⟩
    refine (Activation.through_pushes (h.pushes_given given).1 rfl).2 ?_
    show _ = s.becomes (values.reverse ++ s.stack) prepared
    rw [empty, List.append_nil]

lemma steady_front (h : w.Ahead a a' first slot loads) :
    a'.Steady (w.FailsToPrepare (w.resultCell? a a') s.control s.memory)
      (w.preparation slot ++ loads) s := by
  refine Activation.steady_append (steady_preparation h.cells) fun s₁ through => ?_
  obtain ⟨prepared, _, rfl⟩ := (through_preparation h.cells).1 through
  obtain ⟨values, _, pushed⟩ := h.pushes prepared
  exact Activation.steady_pushes pushed rfl

lemma plain_front (h : w.Ahead a a' first slot loads) :
    ∀ c ∈ w.preparation slot ++ loads, Plain c :=
  List.forall_mem_append.2 ⟨(plain_preparation w slot true 0).1, h.plain⟩

lemma code_call (w : Weaving) (first : Instruction) (slot : Option UInt16) (loads : Code) :
    (w.preparation slot ++ loads ++ w.call :: w.dispatch slot first.id)[
      (w.preparation slot ++ loads).length]? = some w.call := by
  rw [List.getElem?_append_right (Nat.le_refl _), Nat.sub_self]
  rfl

lemma code_dispatch (w : Weaving) (first : Instruction) (slot : Option UInt16) (loads : Code)
    (k : Nat) :
    (w.preparation slot ++ loads ++ w.call :: w.dispatch slot first.id)[
      (w.preparation slot ++ loads).length + 1 + k]? = (w.dispatch slot first.id)[k]? := by
  rw [Nat.add_assoc, List.getElem?_append_right (Nat.le_add_right _ _), Nat.add_sub_cancel_left,
    Nat.add_comm 1]
  rfl

/-- At the call, with what the hook is given on the stack, the hook is called and returns or raises.
-/
lemma step_call (h : w.Ahead a a' first slot loads) {j : Instruction} {calls : List (Call M.Value)}
    {c : Configuration M} (given : values.map some = w.given a memory (w.resultCell? a a'))
    (here : a'.body.instructions.items[(w.preparation slot ++ loads).length]? = some j) :
    a'.Step ((s.becomes values.reverse memory).moveTo j.id) calls c ↔
      calls = [⟨w.request.hook, values⟩] ∧ ∃ t,
        ((∃ pushed memory', t = .next pushed memory'
          ∧ pushed.length = (!w.request.hook.sig.ret.isVoid).toNat
          ∧ M.exec .call (.method w.request.hook) values.reverse s.control memory
            (.next pushed memory'))
        ∨ ∃ exception memory', t = .raise exception memory'
          ∧ M.exec .call (.method w.request.hook) values.reverse s.control memory
            (.raise exception memory'))
        ∧ a'.Lands j ((s.becomes values.reverse memory).moveTo j.id) t c := by
  have size : (s.becomes values.reverse memory).stack.length = w.request.hook.sig.argCount := by
    show values.reverse.length = _
    rw [List.length_reverse, (h.pushes_given given).2]
  have taken : (s.becomes values.reverse memory).stack.take w.request.hook.sig.argCount
      = values.reverse := List.take_of_length_le (Nat.le_of_eq size)
  have left : (s.becomes values.reverse memory).stack.drop w.request.hook.sig.argCount = [] :=
    List.drop_of_length_le (Nat.le_of_eq size)
  rw [h.fronts.step_front (code_call w first slot loads) here]
  show _ = a'.calls (.ofCode _ (.call, .method w.request.hook)) _ ∧ _ ↔ _
  rw [Activation.calls_call (Nat.le_of_eq size.symm), taken, List.reverse_reverse]
  refine and_congr_right fun _ => exists_congr fun t => and_congr_left fun _ => ?_
  show a'.Does (.ofCode _ (.call, .method w.request.hook)) _ t ↔ _
  rw [Activation.does_call (Nat.le_of_eq size.symm), taken, left]
  simp only [List.append_nil]
  rfl

end Ahead

/-! ## Behind the call -/

lemma isVoid_of_maySkip (h : w.maySkip = true) : w.request.hook.sig.ret.isVoid = false := by
  unfold maySkip at h
  cases type : w.request.hook.sig.ret with
  | prim p =>
    rw [type] at h
    cases p <;> first | rfl | cases h
  | _ => rfl

lemma dispatch_maySkip (slot : Option UInt16) (target : InstrId) (h : w.maySkip = true) :
    w.dispatch slot target
      = (.brtrueShort, .target target) :: (slot.map ShortForm.loadLocal).toList ++ [(.ret, .none)] := by
  unfold dispatch
  rw [if_pos h]

/-- Where a run of the woven body may stand before it has settled, with the calls that it has made.
-/
inductive Stage (w : Weaving) (a a' : Activation M) (first : Instruction) (slot : Option UInt16)
    (loads : Code) (entry : InstrId) (control : M.Control) (memory : M.Memory) :
    List (Call M.Value) → State M → Prop where
  | preparing {pre post : Code} {s : State M} {j : Instruction}
      (split : w.preparation slot ++ loads = pre ++ post)
      (through : a'.Through pre (.start entry control memory) s)
      (steady : a'.Steady (w.FailsToPrepare (w.resultCell? a a') control memory) post s)
      (here : a'.body.instructions.items[pre.length]? = some j) :
      w.Stage a a' first slot loads entry control memory [] (s.moveTo j.id)
  | asking {values pushed : List M.Value} {memory' : M.Memory} {j : Instruction}
      (called : w.CallsHook a (w.resultCell? a a') control memory values (.next pushed memory'))
      (count : pushed.length = (!w.request.hook.sig.ret.isVoid).toNat)
      (here : a'.body.instructions.items[(w.preparation slot ++ loads).length + 1]? = some j)
      (asks : w.dispatch slot first.id ≠ []) :
      w.Stage a a' first slot loads entry control memory [⟨w.request.hook, values⟩]
        ⟨j.id, pushed, control, [], memory'⟩
  | loading {values : List M.Value} {value : M.Value} {memory' : M.Memory} {j : Instruction}
      {result : UInt16}
      (called : w.CallsHook a (w.resultCell? a a') control memory values (.next [value] memory'))
      (asked : w.maySkip = true) (refused : M.isTrue value = false) (has : slot = some result)
      (here : a'.body.instructions.items[(w.preparation slot ++ loads).length + 2]? = some j) :
      w.Stage a a' first slot loads entry control memory [⟨w.request.hook, values⟩]
        ⟨j.id, [], control, [], memory'⟩
  | returning {values : List M.Value} {value : M.Value} {memory' : M.Memory} {j : Instruction}
      (called : w.CallsHook a (w.resultCell? a a') control memory values (.next [value] memory'))
      (asked : w.maySkip = true) (refused : M.isTrue value = false)
      (here : a'.body.instructions.items[
        (w.preparation slot ++ loads).length + 2 + slot.toList.length]? = some j) :
      w.Stage a a' first slot loads entry control memory [⟨w.request.hook, values⟩]
        ⟨j.id, ((w.resultCell? a a').map (M.load memory')).toList, control, [], memory'⟩

namespace Ahead

variable {entry : InstrId} {control : M.Control} {prepared memory' : M.Memory}
  {pushed : List M.Value} {calls more : List (Call M.Value)} {c : Configuration M}

/-- A run goes on to another stage, or has settled. -/
def Advances (w : Weaving) (a a' : Activation M) (first : Instruction) (slot : Option UInt16)
    (loads : Code) (entry : InstrId) (control : M.Control) (memory : M.Memory)
    (calls : List (Call M.Value)) (c : Configuration M) : Prop :=
  (∃ s, c = .running s ∧ w.Stage a a' first slot loads entry control memory calls s)
    ∨ w.Settled a first.id (w.resultCell? a a') control memory calls c

/-- From the code in front of the call a run goes on to the next instruction of it, or fails to
prepare the result. -/
lemma step_preparing (h : w.Ahead a a' first slot loads) {pre post : Code} {code : OpCode × Operand}
    {s : State M} {j : Instruction} (split : w.preparation slot ++ loads = pre ++ code :: post)
    (through : a'.Through pre (.start entry control memory) s)
    (steady : a'.Steady (w.FailsToPrepare (w.resultCell? a a') control memory) (code :: post) s)
    (here : a'.body.instructions.items[pre.length]? = some j)
    (step : a'.Step (s.moveTo j.id) more c) :
    Advances w a a' first slot loads entry control memory more c := by
  have held := h.fronts.holds
  rw [split, List.append_assoc] at held
  have bound : pre.length
      < (w.preparation slot ++ loads ++ w.call :: w.dispatch slot first.id).length := by
    rw [split]
    simp only [List.length_append, List.length_cons]
    omega
  obtain ⟨j', behind, _⟩ := h.fronts.next_front h.head (Nat.succ_le_of_lt bound)
  have plain := h.plain_front code (split ▸ List.mem_append_right _ List.mem_cons_self)
  rw [← Nat.zero_add pre.length] at here behind
  obtain ⟨rfl, ⟨s', rfl, through', steady'⟩ | ⟨exception, failed, fails, routes⟩⟩ :=
    Activation.step_steady held plain steady here behind step
  · have behind' : a'.body.instructions.items[(pre ++ [code]).length]? = some j' := by
      rw [List.length_append, ← Nat.zero_add pre.length]
      exact behind
    exact .inl ⟨_, rfl, .preparing (split.trans (List.append_cons _ _ _))
      (Activation.through_append.2 ⟨s, through, through'⟩) steady' behind'⟩
  · right
    rw [Nat.zero_add] at here
    rw [Activation.through_frame through] at routes
    exact .unprepared fails ((h.fronts.routes_front_iff
      (s := (State.start entry control memory).becomes s.stack s.memory) h.named bound here rfl).1 routes)

/-- With nothing behind the call, the target's first instruction follows, and the stack is empty. -/
lemma count_of_dispatch_nil {target : InstrId} {pushed : List M.Value}
    (count : pushed.length = (!w.request.hook.sig.ret.isVoid).toNat)
    (silent : w.dispatch slot target = []) : w.maySkip = false ∧ pushed = [] := by
  unfold dispatch at silent
  by_cases asked : w.maySkip = true
  · rw [if_pos asked] at silent
    cases silent
  · rw [if_neg asked] at silent
    by_cases void : w.request.hook.sig.ret.isVoid = true
    · rw [void] at count
      exact ⟨Bool.eq_false_iff.2 asked, List.length_eq_zero_iff.1 count⟩
    · rw [if_neg void] at silent
      cases silent

/-- The call makes the hook's call, and goes on to what is behind it or raises. -/
lemma step_calling (h : w.Ahead a a' first slot loads) {s : State M} {j : Instruction}
    (through : a'.Through (w.preparation slot ++ loads) (.start entry control memory) s)
    (here : a'.body.instructions.items[(w.preparation slot ++ loads).length]? = some j)
    (step : a'.Step (s.moveTo j.id) more c) :
    Advances w a a' first slot loads entry control memory more c := by
  obtain ⟨prepared, values, prepares, given, rfl⟩ := (h.through_front rfl).1 through
  obtain ⟨rfl, t, outcome, lands⟩ := (h.step_call given here).1 step
  have bound := (List.getElem?_eq_some_iff.1 (code_call w first slot loads)).1
  obtain ⟨pushed, memory', rfl, count, executed⟩ | ⟨exception, memory', rfl, executed⟩ := outcome
  · have called := CallsHook.call prepares given executed
    obtain ⟨j', behind, last⟩ := h.fronts.next_front h.head (Nat.succ_le_of_lt bound)
    cases (Activation.lands_next here behind).1 lands
    by_cases asks : w.dispatch slot first.id = []
    · obtain ⟨noSkip, rfl⟩ := count_of_dispatch_nil count asks
      have target : j' = first := last (by simp [asks, Nat.add_assoc])
      cases target
      refine .inr (.called called (.proceeds count (fun asked => ?_) .refl))
      exact absurd (noSkip.symm.trans asked) Bool.false_ne_true
    · exact .inl ⟨_, rfl, .asking called count behind asks⟩
  · have called := CallsHook.call prepares given executed
    have raised := (h.fronts.routes_front_iff
      (s := (State.start entry control memory).becomes values.reverse prepared) h.named bound here
      rfl).1 (Activation.lands_raise.1 lands)
    exact .inr (.called called (.raises raised))

lemma pushed_eq_singleton {pushed : List M.Value}
    (count : pushed.length = (!w.request.hook.sig.ret.isVoid).toNat)
    (value : w.request.hook.sig.ret.isVoid = false) : ∃ v, pushed = [v] := by
  rw [value] at count
  exact List.length_eq_one_iff.1 count

/-- A hook that may skip its target is asked whether control goes to the target or to the next
instruction. -/
lemma step_branch (h : w.Ahead a a' first slot loads) {value : M.Value} {j j' : Instruction}
    (asked : w.maySkip = true)
    (here : a'.body.instructions.items[(w.preparation slot ++ loads).length + 1]? = some j)
    (behind : a'.body.instructions.items[(w.preparation slot ++ loads).length + 2]? = some j') :
    a'.Step ⟨j.id, [value], control, [], memory'⟩ more c ↔ more = [] ∧ c = .running
      (if M.isTrue value then .start first.id control memory' else .start j'.id control memory') := by
  have at' := (code_dispatch w first slot loads 0).trans
    (congrArg (·[0]?) (dispatch_maySkip _ _ asked))
  have target : a'.body.instructions.contains first.id :=
    h.fronts.fronted.contains (InstructionList.contains_iff_position?.2
      ⟨0, InstructionList.position?_getElem h.head⟩)
  refine (h.fronts.step_front (s := ⟨j.id, [value], control, [], memory'⟩) at' here).trans
    (and_congr_right fun _ => ?_)
  simp only [Activation.does_routine (i := .ofCode _ (.brtrueShort, .target first.id))
    (r := .branchIfTrue) rfl, Activation.turn, exists_eq_left]
  cases (h.fronts.getElem?_front at').symm.trans here
  cases M.isTrue value with
  | true => exact Activation.lands_jump (show _ = some first.id from rfl) target
  | false => exact Activation.lands_next here behind

lemma step_drop (h : w.Ahead a a' first slot loads) {value : M.Value} {j : Instruction}
    (drops : w.dispatch slot first.id = [(.pop, .none)])
    (here : a'.body.instructions.items[(w.preparation slot ++ loads).length + 1]? = some j) :
    a'.Step ⟨j.id, [value], control, [], memory'⟩ more c
      ↔ more = [] ∧ c = .running (.start first.id control memory') := by
  have at' := (code_dispatch w first slot loads 0).trans
    (congrArg (·[0]?) drops)
  obtain ⟨j', behind, last⟩ := h.fronts.next_front h.head
    (Nat.succ_le_of_lt (List.getElem?_eq_some_iff.1 at').1)
  cases last (by simp [drops, Nat.add_assoc])
  refine (h.fronts.step_front (s := ⟨j.id, [value], control, [], memory'⟩) at' here).trans
    (and_congr_right fun _ => ?_)
  simp only [Activation.does_routine (i := .ofCode _ (.pop, .none)) (r := .discard) rfl,
    Activation.turn, exists_eq_left]
  exact Activation.lands_next here behind

/-- A method that the hook skips loads its result from the local for it. -/
lemma step_load {result : UInt16} (h : w.Ahead a a' first (some result) loads) {j j' : Instruction}
    (asked : w.maySkip = true)
    (here : a'.body.instructions.items[(w.preparation (some result) ++ loads).length + 2]? = some j)
    (behind : a'.body.instructions.items[(w.preparation (some result) ++ loads).length + 3]?
      = some j') :
    a'.Step (.start j.id control memory') more c ↔ more = [] ∧ c = .running
      ⟨j'.id, ((w.resultCell? a a').map (M.load memory')).toList, control, [], memory'⟩ := by
  have at' := (code_dispatch w first (some result) loads 1).trans
    (congrArg (·[1]?) (dispatch_maySkip _ _ asked))
  obtain ⟨cell, found, same⟩ : ∃ cell, a'.locals[result.toNat]? = some cell
      ∧ w.resultCell? a a' = some cell := by
    have cells := h.cells
    cases result' : w.resultCell? a a' with
    | none =>
      rw [result'] at cells
      cases cells
    | some cell =>
      rw [result'] at cells
      cases cells with
      | some found => exact ⟨cell, found, rfl⟩
  have silent : a'.calls (.ofCode j.id (ShortForm.loadLocal result)) (.start j.id control memory')
      = [] := Activation.calls_plain (ShortForm.plain_loadLocal result)
  refine (h.fronts.step_front (s := .start j.id control memory') at' here).trans ?_
  show more = a'.calls (.ofCode j.id (ShortForm.loadLocal result)) _ ∧ _ ↔ _
  rw [silent, same]
  refine and_congr_right fun _ => ?_
  simp only [Activation.does_loadLocal found, exists_eq_left]
  exact Activation.lands_next here behind

/-- A method that the hook skips returns what is in the local for the result. -/
lemma step_return (h : w.Ahead a a' first slot loads) {j : Instruction} (asked : w.maySkip = true)
    (here : a'.body.instructions.items[
      (w.preparation slot ++ loads).length + 2 + slot.toList.length]? = some j) :
    a'.Step ⟨j.id, ((w.resultCell? a a').map (M.load memory')).toList, control, [], memory'⟩ more c
      ↔ more = []
        ∧ c = .returned ((w.resultCell? a a').map (M.load memory')).toList memory' := by
  have at' : (w.preparation slot ++ loads ++ w.call :: w.dispatch slot first.id)[
      (w.preparation slot ++ loads).length + 2 + slot.toList.length]? = some (.ret, .none) := by
    have returns : (w.dispatch slot first.id)[1 + slot.toList.length]? = some (.ret, .none) := by
      rw [dispatch_maySkip _ _ asked]
      cases slot <;> rfl
    rw [Nat.add_assoc _ 2, Nat.add_assoc 1 1, ← Nat.add_assoc, code_dispatch, returns]
  have count : ((w.resultCell? a a').map (M.load memory')).toList.length
      = a'.returnsValue.toNat := by
    rw [h.returnsValue, ← h.skips asked]
    cases w.resultCell? a a' <;> rfl
  refine (h.fronts.step_front (s := ⟨j.id, ((w.resultCell? a a').map (M.load memory')).toList, control,
    [], memory'⟩) at' here).trans (and_congr_right fun _ => ?_)
  simp only [Activation.does_routine (i := .ofCode _ (.ret, .none)) (r := .ret) rfl,
    Activation.turn, count, Nat.lt_irrefl, if_false, exists_eq_left,
    List.take_of_length_le (Nat.le_of_eq count)]
  exact Activation.lands_ret

lemma length_front (w : Weaving) (first : Instruction) (slot : Option UInt16) (loads : Code) (k : Nat)
    (h : k ≤ (w.dispatch slot first.id).length) :
    (w.preparation slot ++ loads).length + 1 + k
      ≤ (w.preparation slot ++ loads ++ w.call :: w.dispatch slot first.id).length := by
  simp only [List.length_append, List.length_cons]
  omega

/-- Behind a call that does not lead to the target at once, the hook's result is dropped unless it
is asked for. -/
lemma dispatch_of_not_maySkip {target : InstrId} (asks : w.dispatch slot target ≠ [])
    (asked : w.maySkip ≠ true) :
    w.dispatch slot target = [(.pop, .none)] ∧ w.request.hook.sig.ret.isVoid = false := by
  unfold dispatch at asks ⊢
  rw [if_neg asked] at asks ⊢
  by_cases void : w.request.hook.sig.ret.isVoid = true
  · rw [if_pos void] at asks
    exact absurd rfl asks
  · exact ⟨if_neg void, Bool.eq_false_iff.2 void⟩

/-- Behind the call the hook's result is asked for, or dropped. -/
lemma step_asking (h : w.Ahead a a' first slot loads) {j : Instruction}
    (called : w.CallsHook a (w.resultCell? a a') control memory values (.next pushed memory'))
    (count : pushed.length = (!w.request.hook.sig.ret.isVoid).toNat)
    (here : a'.body.instructions.items[(w.preparation slot ++ loads).length + 1]? = some j)
    (asks : w.dispatch slot first.id ≠ [])
    (step : a'.Step ⟨j.id, pushed, control, [], memory'⟩ more c) :
    Advances w a a' first slot loads entry control memory ([⟨w.request.hook, values⟩] ++ more) c := by
  by_cases asked : w.maySkip = true
  · obtain ⟨value, rfl⟩ := pushed_eq_singleton count (isVoid_of_maySkip asked)
    obtain ⟨j', behind, _⟩ := h.fronts.next_front h.head
      (length_front w first _ loads 1 (List.length_pos_iff.2 asks))
    obtain ⟨rfl, rfl⟩ := (h.step_branch asked here behind).1 step
    cases truth : M.isTrue value with
    | true =>
      refine .inr (.called called (.proceeds count (fun _ v hv => ?_) .refl))
      cases List.mem_singleton.1 hv
      exact truth
    | false =>
      cases slot with
      | none =>
        have none : w.resultCell? a a' = none :=
          Option.isNone_iff_eq_none.1 (Option.isSome_eq_false_iff.1 (isSome_eq_of_rel h.cells).symm)
        have stage : w.Stage a a' first .none loads entry control memory _ _ :=
          .returning called asked truth behind
        rw [none] at stage
        exact .inl ⟨_, rfl, stage⟩
      | some result => exact .inl ⟨_, rfl, .loading called asked truth rfl behind⟩
  · obtain ⟨drops, value⟩ := dispatch_of_not_maySkip asks asked
    obtain ⟨value, rfl⟩ := pushed_eq_singleton count value
    obtain ⟨rfl, rfl⟩ := (h.step_drop drops here).1 step
    exact .inr (.called called (.proceeds count (fun wrong => absurd wrong asked) .refl))

/-- The target lies in the woven body as it is. -/
lemma embeds (h : w.Ahead a a' first slot loads) : a.Embeds a' InstrId.stay fun _ => True :=
  h.fronts.embeds h.named h.locals

/-- Runs of the target keep naming what was handed out. -/
lemma handedOut_of_run (h : w.Ahead a a' first slot loads)
    (run : Run a.Step (.running (.start first.id control memory')) calls c) :
    c.HandedOut a.body.instructions :=
  Activation.run_handedOut (fun out step => step.handedOut h.named out)
    (State.handedOut_start control memory' (List.mem_of_getElem? h.head)) run

/-- From the target's first instruction on, every step is one of the target. -/
lemma step_settled (h : w.Ahead a a' first slot loads) {s : State M}
    (settled : w.Settled a first.id (w.resultCell? a a') control memory calls (.running s))
    (step : a'.Step s more c) :
    w.Settled a first.id (w.resultCell? a a') control memory (calls ++ more) c := by
  cases settled with
  | unprepared _ raised => cases raised
  | called called continues =>
    cases continues with
    | raises raised => cases raised
    | proceeds count accepted run =>
      rw [← State.relabel_stay s] at step
      obtain ⟨c', step', rfl⟩ := (h.embeds.step_iff trivial (h.handedOut_of_run run _ rfl)).1 step
      rw [Configuration.relabel_stay]
      exact .called called (.proceeds count accepted (run.snoc step'))

/-- A run of the woven body from its first instruction is at some stage, or has settled. -/
theorem advances_of_run (h : w.Ahead a a' first slot loads) {entry : Instruction}
    (found : a'.body.instructions.items[0]? = some entry)
    (run : Run a'.Step (.running (.start entry.id control memory)) calls c) :
    Advances w a a' first slot loads entry.id control memory calls c := by
  induction run with
  | refl =>
    have steady := h.steady_front (s := .start entry.id control memory)
    exact .inl ⟨_, rfl, .preparing (s := .start entry.id control memory)
      (List.nil_append _).symm rfl steady found⟩
  | @snoc s trace more c before step ih =>
    obtain ⟨_, same, stage⟩ | settled := ih
    · cases same
      cases stage with
      | @preparing pre post s j split through steady here =>
        cases post with
        | nil =>
          rw [List.append_nil] at split
          rw [← split] at through here
          exact h.step_calling through here step
        | cons code post => exact h.step_preparing split through steady here step
      | asking called count here asks => exact h.step_asking called count here asks step
      | loading called asked refused has here =>
        cases has
        obtain ⟨j', behind, _⟩ := h.fronts.next_front h.head (length_front w first _ loads 2 (by
          rw [dispatch_maySkip _ _ asked]
          exact Nat.le_succ _))
        obtain ⟨rfl, rfl⟩ := (h.step_load asked here behind).1 step
        exact .inl ⟨_, rfl, .returning called asked refused behind⟩
      | returning called asked refused here =>
        obtain ⟨rfl, rfl⟩ := (h.step_return asked here).1 step
        exact .inr (.called called (.skips asked refused))
    · exact .inr (h.step_settled settled step)

/-! ## There is such a run -/

lemma run_front (h : w.Ahead a a' first slot loads) {entry j : Instruction}
    (found : a'.body.instructions.items[0]? = some entry)
    (prepares : w.Prepares (w.resultCell? a a') control memory prepared)
    (given : values.map some = w.given a prepared (w.resultCell? a a'))
    (here : a'.body.instructions.items[(w.preparation slot ++ loads).length]? = some j) :
    Run a'.Step (.running (.start entry.id control memory)) []
      (.running (((State.start entry.id control memory).becomes values.reverse prepared).moveTo j.id)) :=
  h.fronts.run_front (s := .start entry.id control memory) h.plain_front
    ((h.through_front rfl).2 ⟨prepared, values, prepares, given, rfl⟩) found here

lemma run_called (h : w.Ahead a a' first slot loads) {entry j : Instruction}
    (found : a'.body.instructions.items[0]? = some entry)
    (called : w.CallsHook a (w.resultCell? a a') control memory values (.next pushed memory'))
    (count : pushed.length = (!w.request.hook.sig.ret.isVoid).toNat)
    (behind : a'.body.instructions.items[(w.preparation slot ++ loads).length + 1]? = some j) :
    Run a'.Step (.running (.start entry.id control memory)) [⟨w.request.hook, values⟩]
      (.running ⟨j.id, pushed, control, [], memory'⟩) := by
  cases called with
  | @call prepared _ _ prepares given executed =>
    have here := h.fronts.getElem?_front (code_call w first slot loads)
    refine (h.run_front found prepares given here).trans (.single ?_)
    refine (h.step_call given here).2 ⟨rfl, _, .inl ⟨pushed, memory', rfl, count, executed⟩, ?_⟩
    exact (Activation.lands_next here behind).2 rfl

/-- A run in which the hook raises leaves the method. -/
lemma run_raised (h : w.Ahead a a' first slot loads) {entry : Instruction} {exception : M.Value}
    (found : a'.body.instructions.items[0]? = some entry)
    (called : w.CallsHook a (w.resultCell? a a') control memory values (.raise exception memory'))
    (raised : a.RaisesAhead control exception memory' c) :
    Run a'.Step (.running (.start entry.id control memory)) [⟨w.request.hook, values⟩] c := by
  cases called with
  | @call prepared _ _ prepares given executed =>
    have here := h.fronts.getElem?_front (code_call w first slot loads)
    have bound := (List.getElem?_eq_some_iff.1 (code_call w first slot loads)).1
    refine (h.run_front found prepares given here).trans (.single ?_)
    refine (h.step_call given here).2 ⟨rfl, _, .inr ⟨exception, memory', rfl, executed⟩, ?_⟩
    exact Activation.lands_raise.2 ((h.fronts.routes_front_iff
      (s := (State.start entry.id control memory).becomes values.reverse prepared) h.named bound here
      rfl).2 raised)

/-- A hook that does not skip its target is followed by the target's first instruction. -/
lemma run_accepted (h : w.Ahead a a' first slot loads) {j : Instruction}
    (count : pushed.length = (!w.request.hook.sig.ret.isVoid).toNat)
    (accepted : w.maySkip = true → ∀ value ∈ pushed, M.isTrue value = true)
    (here : a'.body.instructions.items[(w.preparation slot ++ loads).length + 1]? = some j)
    (last : w.dispatch slot first.id = [] → j = first) :
    Run a'.Step (.running ⟨j.id, pushed, control, [], memory'⟩) []
      (.running (.start first.id control memory')) := by
  by_cases asks : w.dispatch slot first.id = []
  · cases last asks
    cases (count_of_dispatch_nil count asks).2
    exact .refl
  · by_cases asked : w.maySkip = true
    · obtain ⟨value, rfl⟩ := pushed_eq_singleton count (isVoid_of_maySkip asked)
      obtain ⟨j', behind, _⟩ := h.fronts.next_front h.head
        (length_front w first _ loads 1 (List.length_pos_iff.2 asks))
      refine .single ((h.step_branch asked here behind).2 ⟨rfl, ?_⟩)
      rw [accepted asked value (List.mem_singleton_self _)]
      rfl
    · obtain ⟨drops, value⟩ := dispatch_of_not_maySkip asks asked
      obtain ⟨value, rfl⟩ := pushed_eq_singleton count value
      exact .single ((h.step_drop drops here).2 ⟨rfl, rfl⟩)

/-- A hook that skips its target is followed by a return. -/
lemma run_refused (h : w.Ahead a a' first slot loads) {value : M.Value} {j : Instruction}
    (asked : w.maySkip = true) (refused : M.isTrue value = false)
    (here : a'.body.instructions.items[(w.preparation slot ++ loads).length + 1]? = some j) :
    Run a'.Step (.running ⟨j.id, [value], control, [], memory'⟩) []
      (.returned ((w.resultCell? a a').map (M.load memory')).toList memory') := by
  have size := dispatch_maySkip slot first.id asked
  obtain ⟨j', behind, _⟩ := h.fronts.next_front h.head (length_front w first _ loads 1 (by
    rw [size]
    exact Nat.succ_le_succ (Nat.zero_le _)))
  have branched : Run a'.Step (.running ⟨j.id, [value], control, [], memory'⟩) []
      (.running (.start j'.id control memory')) := by
    refine .single ((h.step_branch asked here behind).2 ⟨rfl, ?_⟩)
    rw [refused]
    rfl
  cases slot with
  | none =>
    have none : w.resultCell? a a' = none :=
      Option.isNone_iff_eq_none.1 (Option.isSome_eq_false_iff.1 (isSome_eq_of_rel h.cells).symm)
    have returned : a'.Step ⟨j'.id, ((w.resultCell? a a').map (M.load memory')).toList, control, [],
        memory'⟩ [] (.returned ((w.resultCell? a a').map (M.load memory')).toList memory') :=
      (h.step_return asked behind).2 ⟨rfl, rfl⟩
    rw [none] at returned ⊢
    exact branched.trans (.single returned)
  | some result =>
    obtain ⟨j₂, behind', _⟩ := h.fronts.next_front h.head (length_front w first _ loads 2 (by
      rw [size]
      exact Nat.le_succ _))
    have loaded : Run a'.Step (.running (.start j'.id control memory')) [] (.running
        ⟨j₂.id, ((w.resultCell? a a').map (M.load memory')).toList, control, [], memory'⟩) :=
      .single ((h.step_load asked behind behind').2 ⟨rfl, rfl⟩)
    exact (branched.trans loaded).trans (.single ((h.step_return asked behind').2 ⟨rfl, rfl⟩))

end Ahead

/-! ## The simulation -/

namespace Ahead

variable {entry : InstrId} {control : M.Control} {calls : List (Call M.Value)} {s : State M}

/-- A run of the target from its first instruction is one of the woven body. -/
lemma run_of_target (h : w.Ahead a a' first slot loads) {c : Configuration M}
    (run : Run a.Step (.running (.start first.id control memory)) calls c) :
    Run a'.Step (.running (.start first.id control memory)) calls c := by
  induction run with
  | refl => exact .refl
  | @snoc s trace more c before last ih =>
    have step := (h.embeds.step_iff trivial (h.handedOut_of_run before _ rfl)).2 ⟨c, last, rfl⟩
    rw [State.relabel_stay, Configuration.relabel_stay] at step
    exact ih.snoc step

/-- However the hook comes out, there is a run that continues accordingly. -/
lemma run_of_continues (h : w.Ahead a a' first slot loads) {i : Instruction} {c : Configuration M}
    {outcome : Outcome M.Value M.Memory} (found : a'.body.instructions.items[0]? = some i)
    (called : w.CallsHook a (w.resultCell? a a') control memory values outcome)
    (continues : w.Continues a first.id (w.resultCell? a a') control outcome calls c) :
    Run a'.Step (.running (.start i.id control memory)) (⟨w.request.hook, values⟩ :: calls) c := by
  have bound := (List.getElem?_eq_some_iff.1 (code_call w first slot loads)).1
  obtain ⟨j, behind, last⟩ := h.fronts.next_front h.head (Nat.succ_le_of_lt bound)
  cases continues with
  | @skips value memory' asked refused =>
    have count : [value].length = (!w.request.hook.sig.ret.isVoid).toNat := by
      rw [isVoid_of_maySkip asked]
      rfl
    exact (h.run_called found called count behind).trans (h.run_refused asked refused behind)
  | proceeds count accepted run =>
    have led : w.dispatch slot first.id = [] → j = first := fun asks =>
      last (by simp [asks, Nat.add_assoc])
    exact ((h.run_called found called count behind).trans
      (h.run_accepted count accepted behind led)).trans (h.run_of_target run)
  | raises raised => exact h.run_raised found called raised

/-- Before it has settled, a run has called the hook at most once. -/
lemma calls_of_stage (stage : w.Stage a a' first slot loads entry control memory calls s) :
    calls = [] ∨ ∃ values pushed memory',
      w.CallsHook a (w.resultCell? a a') control memory values (.next pushed memory')
        ∧ calls = [⟨w.request.hook, values⟩] := by
  cases stage with
  | preparing => exact .inl rfl
  | asking called | loading called | returning called => exact .inr ⟨_, _, _, called, rfl⟩

/-- Before it has settled, a run stands ahead of the target. -/
lemma not_contains_of_stage (h : w.Ahead a a' first slot loads)
    (stage : w.Stage a a' first slot loads entry control memory calls s) :
    ¬ a.body.instructions.contains s.here := by
  cases stage with
  | preparing split _ _ here =>
    refine h.fronts.not_contains_front ?_ here
    rw [split]
    simp only [List.length_append, List.length_cons]
    omega
  | asking _ _ here asks =>
    have bound := length_front w first slot loads 1 (List.length_pos_iff.2 asks)
    exact h.fronts.not_contains_front bound here
  | loading _ asked _ has here =>
    refine h.fronts.not_contains_front (length_front w first _ loads 2 ?_) here
    rw [dispatch_maySkip _ _ asked, has]
    exact Nat.le_succ _
  | returning _ asked _ here =>
    refine h.fronts.not_contains_front ?_ here
    have size := length_front w first slot loads
      (2 + slot.toList.length) (by
        rw [dispatch_maySkip _ _ asked]
        cases slot <;> exact Nat.le_refl _)
    omega

end Ahead

/-- A prefix weave is a simulation. Take any machine, an activation of the target and one of the
woven body with the same arguments and locals, the local for the result added. What the target names was
handed out, and it does not name that local.

There is a local for the result if the target returns one and the hook takes it or may skip the
target. What the hook is given exists once the result is prepared. For every outcome of the hook
there is a run from the first instruction of the woven body that calls the hook once and then
continues accordingly. Every run from there is still ahead of the target, having called the hook at
most once, or has settled like this. -/
theorem weave_before_simulates {target' : MethodDeclaration} (h : w.weave true = .ok target')
    (kind : w.request.kind = .before)
    (params : w.request.hook.sig.params = w.request.hookParams.map (·.type))
    (named : a.body.HandedOut) (spare : w.SparesResult a.body)
    (of : a.Of w.target) (of' : a'.Of target') (args : a'.args = a.args)
    (locals : a.locals <+: a'.locals) (control : M.Control) (memory : M.Memory) :
    ∃ entry first, a'.body.instructions.first? = some entry
      ∧ a.body.instructions.first? = some first
      ∧ a'.body.locals = a.body.locals ++ (if w.hasResult then [w.target.ret] else [])
      ∧ (w.maySkip = true → (w.resultCell? a a').isSome = w.target.returnsValue)
      ∧ (∀ prepared, ∃ values : List M.Value,
          values.map some = w.given a prepared (w.resultCell? a a'))
      ∧ (∀ values outcome calls c,
          w.CallsHook a (w.resultCell? a a') control memory values outcome →
          w.Continues a first.id (w.resultCell? a a') control outcome calls c →
          Run a'.Step (.running (.start entry.id control memory))
            (⟨w.request.hook, values⟩ :: calls) c)
      ∧ ∀ calls c, Run a'.Step (.running (.start entry.id control memory)) calls c →
          (∃ s, c = .running s ∧ ¬ a.body.instructions.contains s.here
            ∧ (calls = [] ∨ ∃ values pushed memory',
              w.CallsHook a (w.resultCell? a a') control memory values (.next pushed memory')
                ∧ calls = [⟨w.request.hook, values⟩]))
          ∨ w.Settled a first.id (w.resultCell? a a') control memory calls c := by
  obtain ⟨first, slot, loads, ahead⟩ := ahead_of_weave h kind params named spare of of' args locals
  have start := (List.getElem?_eq_some_iff.1 (Ahead.code_call w first slot loads)).1
  obtain ⟨entry, found, _⟩ := ahead.fronts.next_front ahead.head (Nat.zero_le _)
  refine ⟨entry, first, ?_, ?_, ahead.declares, ahead.skips, fun prepared => ?_, ?_,
    fun calls c run => ?_⟩
  · exact List.head?_eq_getElem?.trans found
  · exact List.head?_eq_getElem?.trans ahead.head
  · obtain ⟨values, given, _⟩ := ahead.pushes prepared
    exact ⟨values, given⟩
  · intro values outcome calls c called continues
    exact ahead.run_of_continues found called continues
  · obtain ⟨s, rfl, stage⟩ | settled := ahead.advances_of_run found run
    · exact .inl ⟨s, rfl, ahead.not_contains_of_stage stage, Ahead.calls_of_stage stage⟩
    · exact .inr settled

/-! ## Examples -/

namespace Example

open HookWeave.Example

/-- Takes the amount and the address of the result, and says whether to go on. -/
def discount : MethodRef :=
  ⟨⟨"Patches", "", "Hooks"⟩, "Discount",
    ⟨false, .prim .bool, [.prim .int32, .byRef (.prim .int32)]⟩⟩

/-- The discount ahead of the price. -/
def discounting : Weaving :=
  ⟨{}, ⟨"Shop", "", "Till"⟩, price, ⟨⟨"Shop", "", "Till"⟩, "Price", discount,
    [⟨"amount", .prim .int32⟩, ⟨"__result", .byRef (.prim .int32)⟩], true, .before, []⟩⟩

/-- The code ahead of the price. -/
def discountingCode : Code :=
  [(.ldarg0, .none), (.ldlocaShort, .loc 0), (.call, .method discount),
    (.brtrueShort, .target ⟨0⟩), (.ldloc0, .none), (.ret, .none)]

/-- The instructions of the woven price. -/
def discounted : InstructionList where
  items := InstructionList.number 2 discountingCode ++ [⟨⟨0⟩, .ldarg0, .none⟩, ⟨⟨1⟩, .ret, .none⟩]
  nextId := 8
  nodup := by decide
  below := by decide

/-- The body of the woven price. -/
def discountedBody : MethodBody :=
  ⟨2, true, [.prim .int32], discounted, []⟩

/-- The woven price. -/
def discountedPrice : MethodDeclaration :=
  { price with body := some discountedBody }

lemma weave_discounting : discounting.weave true = .ok discountedPrice := by
  have checked : discounting.check = .ok () := by decide +kernel
  have code : discounting.prologue (some 0) ⟨0⟩ = .ok discountingCode := by decide +kernel
  refine bind_eq_ok.2 ⟨(), checked, bind_eq_ok.2 ⟨discountedBody, ?_, rfl⟩⟩
  refine bind_eq_ok.2 ⟨priceBody, rfl, ?_⟩
  refine bind_eq_ok.2 ⟨(some 0, { priceBody with initLocals := true, locals := [.prim .int32] }),
    by decide +kernel, bind_eq_ok.2 ⟨discountingCode, code, ?_⟩⟩
  refine bind_eq_ok.2 ⟨{ discountedBody with maxStack := 0 }, by decide +kernel, ?_⟩
  exact discounting.balanced_of_within 20 (m := 2) rfl (by decide +kernel)

/-- The discount is called with the amount and the address of the result, and the price is skipped.
-/
theorem price_skipped :
    discounting.weave true = .ok discountedPrice
      ∧ discounting.request.hook.sig.params = discounting.request.hookParams.map (·.type)
      ∧ priceBody.HandedOut ∧ discounting.SparesResult priceBody
      ∧ Run (atTill discountedBody [1]).Step (.running (.start ⟨2⟩ () [5, 0]))
          [⟨discount, [(5 : Int), (1 : Int)]⟩] (.returned [(7 : Int)] [5, 7]) := by
  have named : priceBody.HandedOut := ⟨by decide, by decide⟩
  have none : ∀ i ∈ priceBody.instructions.items, i.localSlot? = none := by decide
  have spare : discounting.SparesResult priceBody := fun _ i listed slot names =>
    absurd ((none i listed).symm.trans names) nofun
  refine ⟨weave_discounting, rfl, named, spare, ?_⟩
  obtain ⟨entry, first, entered, _, _, _, _, runs, _⟩ :=
    weave_before_simulates weave_discounting rfl rfl named spare
      (⟨rfl, rfl, rfl, rfl⟩ : (atTill priceBody []).Of price)
      (⟨rfl, rfl, rfl, rfl⟩ : (atTill discountedBody [1]).Of discountedPrice) rfl List.nil_prefix ()
      ([5, 0] : List Int)
  cases entered
  refine runs [(5 : Int), (1 : Int)] (.next [(0 : Int)] ([5, 7] : List Int)) [] _ ?_ ?_
  · exact .call (.needless (.inr rfl)) (by rfl) ⟨rfl, rfl⟩
  · exact .skips rfl (by decide)

/-- The greeting ahead of a visit that branches to an instruction that is not there yet. -/
def welcoming : Weaving :=
  ⟨{}, ⟨"Shop", "", "Door"⟩, visitOf (branching ⟨3⟩),
    ⟨⟨"Shop", "", "Door"⟩, "Visit", greet, [], true, .before, []⟩⟩

/-- The body of the woven visit, where the branch leads to the greeting. -/
def welcomedBody : MethodBody where
  maxStack := 1
  initLocals := false
  locals := []
  instructions := {
    items := [⟨⟨3⟩, .call, .method greet⟩, ⟨⟨0⟩, .ldarg0, .none⟩, ⟨⟨1⟩, .brtrueShort, .target ⟨3⟩⟩,
      ⟨⟨2⟩, .ret, .none⟩]
    nextId := 4
    nodup := by decide
    below := by decide }
  clauses := []

lemma weave_welcoming : welcoming.weave true = .ok (visitOf welcomedBody) := by
  have checked : welcoming.check = .ok () := by decide +kernel
  refine bind_eq_ok.2 ⟨(), checked, bind_eq_ok.2 ⟨welcomedBody, ?_, rfl⟩⟩
  refine bind_eq_ok.2 ⟨branching ⟨3⟩, rfl, bind_eq_ok.2 ⟨(none, branching ⟨3⟩), rfl, ?_⟩⟩
  refine bind_eq_ok.2 ⟨[(.call, .method greet)], rfl, ?_⟩
  refine bind_eq_ok.2 ⟨welcomedBody, by decide +kernel, ?_⟩
  exact welcoming.balanced_of_within 20 (m := 1) rfl (by decide +kernel)

/-- The branch leads to the greeting. -/
lemma run_welcomed :
    Run (atDoor welcomedBody).Step (.running (.start ⟨3⟩ () ([1] : List Int)))
      [⟨greet, []⟩, ⟨greet, []⟩] (.running (.start ⟨0⟩ () ([1] : List Int))) := by
  let asked : State till := ⟨⟨1⟩, [(1 : Int)], (), [], ([1] : List Int)⟩
  have greeted : (atDoor welcomedBody).Step (.start ⟨3⟩ () ([1] : List Int)) [⟨greet, []⟩]
      (.running (.start ⟨0⟩ () ([1] : List Int))) :=
    .execute (i := ⟨⟨3⟩, .call, .method greet⟩) rfl ⟨.next [] ([1] : List Int), ⟨rfl, rfl⟩, rfl⟩
      (.next rfl)
  have loaded : (atDoor welcomedBody).Step (.start ⟨0⟩ () ([1] : List Int)) [] (.running asked) :=
    .execute (i := ⟨⟨0⟩, .ldarg0, .none⟩) rfl rfl (.next rfl)
  have branched : (atDoor welcomedBody).Step asked []
      (.running (.start ⟨3⟩ () ([1] : List Int))) :=
    .execute (i := ⟨⟨1⟩, .brtrueShort, .target ⟨3⟩⟩) rfl rfl (.jump rfl rfl)
  exact (((Run.single greeted).snoc loaded).snoc branched).snoc greeted

/-- Takes the amount and says whether to go on. -/
def allow : MethodRef :=
  ⟨⟨"Patches", "", "Hooks"⟩, "Allow", ⟨false, .prim .bool, [.prim .int32]⟩⟩

/-- A body that gives back a local that it does not have. -/
def recallBody : MethodBody :=
  .ofInstructions (.ofCode [(.ldloc0, .none), (.ret, .none)])

/-- The question whether to go on, ahead of that body. -/
def allowing : Weaving :=
  ⟨{}, ⟨"Shop", "", "Till"⟩, { price with body := some recallBody },
    ⟨⟨"Shop", "", "Till"⟩, "Price", allow, [⟨"amount", .prim .int32⟩], true, .before, []⟩⟩

/-- The woven body, which has a local for the result. -/
def allowedBody : MethodBody where
  maxStack := 1
  initLocals := true
  locals := [.prim .int32]
  instructions := {
    items := InstructionList.number 2 [(.ldarg0, .none), (.call, .method allow),
      (.brtrueShort, .target ⟨0⟩), (.ldloc0, .none), (.ret, .none)]
      ++ [⟨⟨0⟩, .ldloc0, .none⟩, ⟨⟨1⟩, .ret, .none⟩]
    nextId := 7
    nodup := by decide
    below := by decide }
  clauses := []

lemma weave_allowing :
    allowing.weave true = .ok { price with body := some allowedBody } := by
  have checked : allowing.check = .ok () := by decide +kernel
  refine bind_eq_ok.2 ⟨(), checked, bind_eq_ok.2 ⟨allowedBody, ?_, rfl⟩⟩
  refine bind_eq_ok.2 ⟨recallBody, rfl, ?_⟩
  refine bind_eq_ok.2 ⟨(some 0, { recallBody with initLocals := true, locals := [.prim .int32] }),
    by decide +kernel, bind_eq_ok.2 ⟨[(.ldarg0, .none), (.call, .method allow),
      (.brtrueShort, .target ⟨0⟩), (.ldloc0, .none), (.ret, .none)], by decide +kernel, ?_⟩⟩
  refine bind_eq_ok.2 ⟨{ allowedBody with maxStack := 0 }, by decide +kernel, ?_⟩
  exact allowing.balanced_of_within 20 (m := 1) rfl (by decide +kernel)

/-- What is in the new local is returned. -/
lemma run_allowed :
    Run (atTill allowedBody [1]).Step (.running (.start ⟨2⟩ () ([5, 0] : List Int)))
      [⟨allow, [(5 : Int)]⟩] (.returned [(0 : Int)] ([5, 0] : List Int)) := by
  let given : State till := ⟨⟨3⟩, [(5 : Int)], (), [], ([5, 0] : List Int)⟩
  let asked : State till := ⟨⟨4⟩, [(10 : Int)], (), [], ([5, 0] : List Int)⟩
  let recalled : State till := ⟨⟨1⟩, [(0 : Int)], (), [], ([5, 0] : List Int)⟩
  have loaded : (atTill allowedBody [1]).Step (.start ⟨2⟩ () ([5, 0] : List Int)) []
      (.running given) := .execute (i := ⟨⟨2⟩, .ldarg0, .none⟩) rfl rfl (.next rfl)
  have called : (atTill allowedBody [1]).Step given [⟨allow, [(5 : Int)]⟩] (.running asked) :=
    .execute (i := ⟨⟨3⟩, .call, .method allow⟩) rfl
      ⟨.next [(10 : Int)] ([5, 0] : List Int), ⟨rfl, rfl⟩, rfl⟩ (.next rfl)
  have branched : (atTill allowedBody [1]).Step asked []
      (.running (.start ⟨0⟩ () ([5, 0] : List Int))) :=
    .execute (i := ⟨⟨4⟩, .brtrueShort, .target ⟨0⟩⟩) rfl rfl (.jump rfl rfl)
  have local' : (atTill allowedBody [1]).Step (.start ⟨0⟩ () ([5, 0] : List Int)) []
      (.running recalled) := .execute (i := ⟨⟨0⟩, .ldloc0, .none⟩) rfl rfl (.next rfl)
  have returned : (atTill allowedBody [1]).Step recalled [] (.returned [(0 : Int)] ([5, 0] : List Int)) :=
    .execute (i := ⟨⟨1⟩, .ret, .none⟩) rfl rfl .ret
  exact ((((Run.single loaded).snoc called).snoc branched).snoc local').snoc returned

/-- No run of the body without its local comes to a return. -/
lemma runs_recall {calls : List (Call till.Value)} {c : Configuration till}
    (run : Run (atTill recallBody []).Step (.running (.start ⟨0⟩ () ([5, 0] : List Int))) calls c) :
    c = .running (.start ⟨0⟩ () ([5, 0] : List Int)) ∨ c = .wrong := by
  induction run with
  | refl => exact .inl rfl
  | snoc _ step ih =>
    obtain start | none := ih
    · cases start
      obtain ⟨_, t, does, lands⟩ := (Activation.step_iff (i := ⟨⟨0⟩, .ldloc0, .none⟩) rfl).1 step
      cases (Activation.does_routine (r := .load) rfl).1 does
      cases lands
      exact .inr rfl
    · cases none

/-- A visit that branches to an identity which the greeting then gets greets twice, though no run of it
calls anything. A body that names the local which is added for the result returns what is in it, though no
run of it returns. -/
theorem stray_visit_greets_twice :
    (welcoming.weave true = .ok (visitOf welcomedBody) ∧ welcoming.request.kind = .before
      ∧ welcoming.request.hook.sig.params = welcoming.request.hookParams.map (·.type)
      ∧ (atDoor (branching ⟨3⟩)).Of welcoming.target ∧ (atDoor welcomedBody).Of (visitOf welcomedBody)
      ∧ Run (atDoor welcomedBody).Step (.running (.start ⟨3⟩ () ([1] : List Int)))
          [⟨greet, []⟩, ⟨greet, []⟩] (.running (.start ⟨0⟩ () ([1] : List Int)))
      ∧ ∀ calls c, Run (atDoor (branching ⟨3⟩)).Step (.running (.start ⟨0⟩ () ([1] : List Int)))
          calls c → calls = [])
    ∧ allowing.weave true = .ok { price with body := some allowedBody }
      ∧ allowing.request.kind = .before
      ∧ allowing.request.hook.sig.params = allowing.request.hookParams.map (·.type)
      ∧ (atTill recallBody []).Of allowing.target
      ∧ (atTill allowedBody [1]).Of { price with body := some allowedBody }
      ∧ Run (atTill allowedBody [1]).Step (.running (.start ⟨2⟩ () ([5, 0] : List Int)))
          [⟨allow, [(5 : Int)]⟩] (.returned [(0 : Int)] ([5, 0] : List Int))
      ∧ ∀ calls values memory, ¬ Run (atTill recallBody []).Step
          (.running (.start ⟨0⟩ () ([5, 0] : List Int))) calls (.returned values memory) := by
  refine ⟨⟨weave_welcoming, rfl, rfl, ⟨rfl, rfl, rfl, rfl⟩, ⟨rfl, rfl, rfl, rfl⟩, run_welcomed,
      fun calls c run => (runs_branching rfl run).1⟩,
    weave_allowing, rfl, rfl, ⟨rfl, rfl, rfl, rfl⟩, ⟨rfl, rfl, rfl, rfl⟩, run_allowed,
    fun calls values memory run => ?_⟩
  obtain start | none := runs_recall run
  · cases start
  · cases none

end Example

end Weaving
end HookWeave

import HookWeave.Proofs.Weaving.Refusals
import HookWeave.Proofs.Weaving.Typing

/-!
# Parameters that are named as the result

A parameter takes the result if it has the name for it and its type is an address. The check then asks for
the type of an address of the result, and what is woven passes this address for it. A parameter that has
the name but no address as its type is taken for one that is given an argument (`Weaving.Disguised`) if it
fits, and is refused if it does not. So the name decides only where no parameter is disguised
(`weave_passes_result`).
-/

namespace HookWeave

namespace Weaving

variable {M : Machine} {w : Weaving} {target' : MethodDeclaration} {a a' : Activation M}
  {p : Parameter} {params : List Parameter} {position k : Nat}

/-! ## What the check lets through -/

/-- Each parameter of a hook that fits takes the result, which it can, or the next argument. -/
lemma checked_getElem? (checked : w.checkParameters position params = .ok ())
    (at' : params[k]? = some p) :
    (w.givesResult p ∧ w.checkResult p = .ok ())
      ∨ (¬ w.givesResult p ∧ position + w.argumentsBefore params k < w.target.argCount
        ∧ w.fitsArgument (position + w.argumentsBefore params k) p.type = true) := by
  induction params generalizing position k with
  | nil => cases at'
  | cons q params ih =>
    obtain ⟨gives, here, rest⟩ | ⟨gives, enough, fits, rest⟩ := of_checkParameters_eq_ok checked
    · cases k with
      | zero =>
        cases at'
        exact .inl ⟨gives, here⟩
      | succ k =>
        rw [argumentsBefore_of_gives gives]
        exact ih rest at'
    · cases k with
      | zero =>
        cases at'
        exact .inr ⟨gives, enough, fits⟩
      | succ k =>
        rw [argumentsBefore_of_not_gives gives, Nat.add_comm _ 1, ← Nat.add_assoc]
        exact ih rest at'

lemma not_isVoid_of_checkResult (h : w.checkResult p = .ok ()) : w.target.ret.isVoid = false := by
  unfold checkResult at h
  split_ifs at h with void
  · cases h
  · cases h
  · exact Bool.eq_false_iff.2 void

/-- What takes the address of the result is an address. -/
lemma isByRef_resultType (w : Weaving) : w.resultType.isByRef = true := by
  unfold resultType
  split_ifs with byRef
  · exact byRef
  · rfl

/-- The parameter has the name for the result, but is no address, and can take the argument of its
target that it comes to. -/
structure Disguised (w : Weaving) (k : Nat) (p : Parameter) : Prop where
  value : p.type.isByRef = false
  fits : w.fitsArgument (w.argumentsBefore w.request.hookParams k) p.type = true

/-- A parameter that has the name takes the result if it is an address. -/
lemma takesResult_of_name (named : p.name = w.conventions.resultParameter) :
    w.takesResult p = p.type.isByRef := by
  rw [takesResult, named, decide_eq_true rfl, Bool.true_and]

/-- A parameter that has the name and gets through the check takes the result, if it is not disguised. -/
lemma checkResult_of_check (h : w.check = .ok ()) (before : w.request.kind = .before)
    (at' : w.request.hookParams[k]? = some p) (named : p.name = w.conventions.resultParameter)
    (shown : ¬ w.Disguised k p) : w.checkResult p = .ok () ∧ w.takesResult p = true := by
  obtain ⟨_, _, fits, _⟩ := of_check_eq_ok h
  obtain ⟨gives, result⟩ | ⟨gives, _, argument⟩ := checked_getElem? fits at'
  · exact ⟨result, gives.2⟩
  · rw [Nat.zero_add] at argument
    have value : p.type.isByRef = false := by
      rw [← takesResult_of_name named]
      exact Bool.eq_false_iff.2 fun takes => gives ⟨before, takes⟩
    exact absurd ⟨value, argument⟩ shown

lemma weave_of_check_eq_error {e : Fault} (h : w.check = .error e) : w.weave true = .error e := by
  show (w.check >>= _) = _
  rw [h]
  rfl

/-! ## What is passed -/

/-- In front of the call stand loads, one for each parameter of the hook, and on the machine the one for
a parameter pushes a value. -/
def Passes (w : Weaving) (a' : Activation M) (k : Nat) (value : M.Memory → M.Value) : Prop :=
  ∃ front loads call rest, a'.body.instructions.items = front ++ loads ++ call :: rest
    ∧ (call.op, call.operand) = w.call
    ∧ loads.length = w.request.hookParams.length
    ∧ ∀ memory, ∃ values, values[k]? = some (value memory)
      ∧ List.Forall₂ (fun i v => a'.Pushes memory (i.op, i.operand) v) loads values

/-- On every machine the call is passed the address of the result for the parameter: that of the local
that is added for it, or the one that this local holds. -/
def PassesResult (w : Weaving) (target' : MethodDeclaration) (k : Nat) : Prop :=
  ∀ (M : Machine) (a a' : Activation M), a.Of w.target → a'.Of target' → a'.args = a.args →
    a.locals <+: a'.locals →
      a'.body.locals = a.body.locals ++ [w.target.ret]
        ∧ ∃ cell, a'.locals[a.locals.length]? = some cell
          ∧ w.Passes a' k fun memory => w.resultValue memory cell

/-- On every machine the call is passed an argument of the target for the parameter. -/
def PassesArgument (w : Weaving) (target' : MethodDeclaration) (k position : Nat) : Prop :=
  ∀ (M : Machine) (a a' : Activation M), a.Of w.target → a'.Of target' → a'.args = a.args →
    a.locals <+: a'.locals →
      ∃ cell, a.args[position]? = some cell ∧ w.Passes a' k fun memory => M.load memory cell

/-- What is given is passed. -/
lemma Loaded.passes {first : Instruction} {slot : Option UInt16} {loads : Code}
    (h : w.Loaded a a' first slot loads) {value : M.Memory → M.Value}
    (given : ∀ memory, (w.given a memory (w.resultCell? a a'))[k]? = some (some (value memory))) :
    w.Passes a' k value := by
  have items := h.fronts.items
  rw [InstructionList.number_append, InstructionList.number_append, List.append_assoc] at items
  refine ⟨_, _, _, _, items, rfl, ?_, fun memory => ?_⟩
  · rw [InstructionList.length_number, (plain_loads h.loaded).1]
  · obtain ⟨values, same, pushes⟩ := h.pushes memory
    have there := given memory
    rw [← same, List.getElem?_map, Option.map_eq_some_iff] at there
    obtain ⟨v, found, value⟩ := there
    refine ⟨values, found.trans value,
      forall₂_comp (InstructionList.forall₂_number loads).flip pushes fun i c v holds push => ?_⟩
    rw [holds.1, holds.2]
    exact push

/-- Before a target, the parameters that are given arguments are those that do not take the result. -/
lemma argumentsBefore_eq (before : w.request.kind = .before) :
    w.argumentsBefore params k = (params.take k).countP (!w.takesResult ·) := by
  refine List.countP_congr fun p _ => ?_
  simp only [givesResult, before, true_and, decide_eq_true_eq, Bool.not_eq_true, Bool.not_eq_true']

/-- What a parameter of a hook that runs before its target is given. -/
lemma given_getElem? {memory : M.Memory} {result : Option M.Cell} (before : w.request.kind = .before)
    (at' : w.request.hookParams[k]? = some p) : (w.given a memory result)[k]?
      = some (if w.takesResult p then result.map (w.resultValue memory)
        else a.args[w.argumentsBefore w.request.hookParams k]?.map (M.load memory)) := by
  rw [given, List.getElem?_mapIdx, at', argumentsBefore_eq before]
  rfl

/-- A parameter that takes the result is passed its address. -/
lemma passesResult_of_weave (h : w.weave true = .ok target') (before : w.request.kind = .before)
    (at' : w.request.hookParams[k]? = some p) (takes : w.takesResult p = true) :
    w.PassesResult target' k := by
  intro M a a' of of' args locals
  obtain ⟨first, slot, loads, loaded⟩ := loaded_of_weave h before of of' args locals
  have has := hasResult_of_takes (List.mem_of_getElem? at') takes
  have declares := loaded.declares
  rw [has, if_pos rfl] at declares
  have bound : a.locals.length < a'.locals.length := by
    rw [of.locals, of'.locals, declares, List.length_append]
    exact Nat.lt_succ_self _
  have cell : a'.locals[a.locals.length]? = some a'.locals[a.locals.length] :=
    List.getElem?_eq_getElem bound
  refine ⟨declares, _, cell, loaded.passes fun memory => ?_⟩
  rw [given_getElem? before at', if_pos takes, resultCell?, has, if_pos rfl, cell]
  rfl

/-- Another parameter is passed the argument that it comes to. -/
lemma passesArgument_of_weave (h : w.weave true = .ok target') (before : w.request.kind = .before)
    (at' : w.request.hookParams[k]? = some p) (takes : w.takesResult p = false)
    (enough : w.argumentsBefore w.request.hookParams k < w.target.argCount) :
    w.PassesArgument target' k (w.argumentsBefore w.request.hookParams k) := by
  intro M a a' of of' args locals
  obtain ⟨first, slot, loads, loaded⟩ := loaded_of_weave h before of of' args locals
  rw [← of.args] at enough
  have cell := List.getElem?_eq_getElem enough
  refine ⟨_, cell, loaded.passes fun memory => ?_⟩
  rw [given_getElem? before at', takes, cell]
  rfl

/-- A parameter that has the name for the result and is not disguised is passed the address of the result,
for its type is that of such an address; if its type is another, or the target gives nothing, the hook is
refused. One that is disguised has another type and is passed an argument all the same. -/
theorem weave_passes_result (before : w.request.kind = .before)
    (at' : w.request.hookParams[k]? = some p) (named : p.name = w.conventions.resultParameter) :
    (¬ w.Disguised k p →
        (∀ target', w.weave true = .ok target' → w.target.ret.isVoid = false
          ∧ p.type = w.resultType ∧ w.PassesResult target' k)
        ∧ (w.target.ret.isVoid = true ∨ p.type ≠ w.resultType → ∃ reason,
          w.weave true = .error (.misfit w.request.hookName w.targetName reason)))
      ∧ (w.Disguised k p → p.type ≠ w.resultType ∧ ∀ target', w.weave true = .ok target' →
        w.PassesArgument target' k (w.argumentsBefore w.request.hookParams k)) := by
  refine ⟨fun shown => ⟨fun target' h => ?_, fun wrong => ?_⟩,
    fun disguised => ⟨fun same => ?_, fun target' h => ?_⟩⟩
  · obtain ⟨result, takes⟩ := checkResult_of_check (of_weave_eq_ok h).1 before at' named shown
    exact ⟨not_isVoid_of_checkResult result, type_of_checkResult result,
      passesResult_of_weave h before at' takes⟩
  · cases outcome : w.check with
    | ok =>
      obtain ⟨result, _⟩ := checkResult_of_check outcome before at' named shown
      obtain void | other := wrong
      · cases void.symm.trans (not_isVoid_of_checkResult result)
      · exact absurd (type_of_checkResult result) other
    | error e =>
      obtain ⟨reason, rfl⟩ := failsWith_check e outcome
      exact ⟨reason, weave_of_check_eq_error outcome⟩
  · cases disguised.value.symm.trans ((congrArg _ same).trans w.isByRef_resultType)
  · obtain ⟨_, _, fits, _⟩ := of_check_eq_ok (of_weave_eq_ok h).1
    have none : w.takesResult p = false := (takesResult_of_name named).trans disguised.value
    obtain ⟨gives, _⟩ | ⟨_, enough, _⟩ := checked_getElem? fits at'
    · cases none.symm.trans gives.2
    · rw [Nat.zero_add] at enough
      exact passesArgument_of_weave h before at' none enough

namespace Example

open HookWeave.Example

/-- The discount is passed the address of the result for the parameter of that name. -/
theorem discount_passed_result : discounting.request.kind = .before
    ∧ discounting.request.hookParams[1]? = some ⟨"__result", .byRef (.prim .int32)⟩
    ∧ discounting.weave true = .ok discountedPrice
    ∧ TypeSig.byRef (.prim .int32) = discounting.resultType
    ∧ discounting.PassesResult discountedPrice 1 := by
  have shown : ¬ discounting.Disguised 1 ⟨"__result", .byRef (.prim .int32)⟩ :=
    fun disguised => by cases disguised.value
  obtain ⟨passes, _⟩ := (weave_passes_result (w := discounting) rfl rfl rfl).1 shown
  obtain ⟨_, type, passed⟩ := passes discountedPrice weave_discounting
  exact ⟨rfl, rfl, weave_discounting, type, passed⟩

/-- Takes an integer under the name for the result. -/
def peek : MethodRef :=
  ⟨⟨"Patches", "", "Hooks"⟩, "Peek", ⟨false, .prim .void, [.prim .int32]⟩⟩

/-- The peek ahead of the price. -/
def peeking : Weaving :=
  ⟨{}, ⟨"Shop", "", "Till"⟩, price, ⟨⟨"Shop", "", "Till"⟩, "Price", peek,
    [⟨"__result", .prim .int32⟩], true, .before, []⟩⟩

/-- The instructions of the price with the peek ahead of it. -/
def peeked : InstructionList where
  items := [⟨⟨2⟩, .ldarg0, .none⟩, ⟨⟨3⟩, .call, .method peek⟩, ⟨⟨0⟩, .ldarg0, .none⟩, ⟨⟨1⟩, .ret, .none⟩]
  nextId := 4
  nodup := by decide
  below := by decide

/-- The body of the price with the peek ahead of it. -/
def peekedBody : MethodBody :=
  ⟨1, false, [], peeked, []⟩

open StackDepth in
lemma peeked_maxStack : peeked.maxStack [] true = .ok 1 := by
  refine bind_eq_ok.2 ⟨[], rfl, bind_eq_ok.2 ⟨⟨#[some 0, some 1, some 0, some 1], 1⟩, ?_, rfl⟩⟩
  refine (explore_unknown (by decide) (by decide) rfl rfl rfl).trans ?_
  refine (explore_unknown (by decide) (by decide) rfl rfl rfl).trans ?_
  refine (explore_unknown (by decide) (by decide) rfl rfl rfl).trans ?_
  exact (explore_unknown (by decide) (by decide) rfl rfl rfl).trans explore_nil

lemma weave_peeking : peeking.weave true = .ok { price with body := some peekedBody } := by
  have checked : peeking.check = .ok () := by decide +kernel
  refine bind_eq_ok.2 ⟨(), checked, bind_eq_ok.2 ⟨peekedBody, ?_, rfl⟩⟩
  refine bind_eq_ok.2 ⟨priceBody, rfl, bind_eq_ok.2 ⟨(none, priceBody), by decide +kernel, ?_⟩⟩
  refine bind_eq_ok.2 ⟨[(.ldarg0, .none), (.call, .method peek)], by decide +kernel, ?_⟩
  refine bind_eq_ok.2 ⟨{ peekedBody with maxStack := 0 }, by decide +kernel, ?_⟩
  show Except.mapError _ (peeked.maxStack [] true >>= _) = _
  rw [peeked_maxStack]
  rfl

/-- The peek is woven though it has another type than the result's under its name, and is passed the
argument. -/
theorem peek_passed_argument : peeking.weave true = .ok { price with body := some peekedBody }
    ∧ peeking.request.hookParams = [⟨peeking.conventions.resultParameter, .prim .int32⟩]
    ∧ TypeSig.prim .int32 ≠ peeking.resultType
    ∧ peeked.items.map (fun i => (i.op, i.operand))
      = [(.ldarg0, .none), peeking.call, (.ldarg0, .none), (.ret, .none)] :=
  ⟨weave_peeking, rfl, by decide, rfl⟩

end Example

end Weaving
end HookWeave

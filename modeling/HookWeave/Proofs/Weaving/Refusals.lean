import HookWeave.Proofs.Code.Splices
import HookWeave.Proofs.Weaving.Ahead

/-!
# Refused weaves

A weave fails because the hook does not fit its target or because the target's body cannot take it
(`Weaving.failsWith_weave`), unless the body has no room for one more local. The edits of the
instructions themselves do not fail (`InstructionList.insertAll_isOk`,
`MethodBody.removeInstruction_isOk`).
-/

namespace HookWeave

/-- Whatever the computation fails with has the property. -/
def FailsWith {α : Type} (P : Fault → Prop) (x : Except Fault α) : Prop :=
  ∀ e, x = .error e → P e

/-- The fault says that a hook does not fit its target, or that the target's body cannot take it. -/
def Fault.IsRefusal : Fault → Prop
  | .misfit .. | .bodyMissing .. | .bodyEmpty .. | .bodyEndsWithoutReturn .. | .argumentOutOfRange ..
  | .bodyUnbalanced .. => True
  | _ => False

variable {α β : Type} {P : Fault → Prop} {x : Except Fault α} {f : α → Except Fault β}

lemma FailsWith.ok {a : α} : FailsWith P (.ok a) :=
  nofun

lemma FailsWith.error {e : Fault} (h : P e) : FailsWith P (.error e : Except Fault α) := by
  intro e' same
  cases same
  exact h

lemma FailsWith.imp {Q : Fault → Prop} (h : FailsWith P x) (weaker : ∀ e, P e → Q e) : FailsWith Q x :=
  fun e failed => weaker e (h e failed)

lemma FailsWith.bind (first : FailsWith P x) (second : ∀ a, x = .ok a → FailsWith P (f a)) :
    FailsWith P (x >>= f) := by
  intro e failed
  cases made : x with
  | error e' =>
    rw [made] at failed
    cases failed
    exact first e made
  | ok a =>
    rw [made] at failed
    exact second a made e failed

lemma FailsWith.ite {p : Prop} [Decidable p] {y : Except Fault α} (yes : p → FailsWith P x)
    (no : ¬ p → FailsWith P y) : FailsWith P (if p then x else y) := by
  split_ifs with h
  · exact yes h
  · exact no h

/-! ## Edits -/

namespace InstructionList

variable {l : InstructionList} {id : InstrId}

/-- Code that names listed instructions only can be inserted before a listed one. -/
lemma insertAll_isOk {code : List (OpCode × Operand)} (listed : l.contains id = true)
    (named : ∀ c ∈ code, ∀ target ∈ c.2.targets, l.contains target = true) :
    ∃ l', (code.forM fun c => discard (insertBefore id c.1 c.2) : Edit PUnit) l = .ok .unit l' := by
  induction code generalizing l with
  | nil => exact ⟨l, rfl⟩
  | cons c code ih =>
    obtain ⟨here, others⟩ := List.forall_mem_cons.1 named
    obtain ⟨k, position⟩ := contains_iff_position?.1 listed
    have inserted : insertBefore id c.1 c.2 l = .ok ⟨l.nextId⟩ (l.insertAt k c.1 c.2) :=
      edit_bind_eq_ok.2 ⟨k, l, anchor_eq_ok.2 ⟨position, rfl⟩, insert_eq_ok.2 ⟨rfl, rfl, here⟩⟩
    obtain ⟨l', rest⟩ := ih (contains_insertAt listed)
      fun c hc target mem => contains_insertAt (others c hc target mem)
    exact ⟨l', edit_bind_eq_ok.2 ⟨.unit, _, edit_discard_eq_ok.2 ⟨_, inserted⟩, rest⟩⟩

end InstructionList

/-- Code that names the first instruction only can be inserted before that. -/
lemma MethodBody.insertAll_isOk {b : MethodBody} {first : Instruction} {code : List (OpCode × Operand)}
    (head : b.instructions.first? = some first) (named : ∀ c ∈ code, ∀ id ∈ c.2.targets, id = first.id) :
    ∃ l, b.apply (MethodBody.editInstructions
        (code.forM fun c => discard (InstructionList.insertBefore first.id c.1 c.2)))
          = .ok { b with instructions := l }
      ∧ b.instructions.Fronted l code := by
  have listed : b.instructions.contains first.id = true :=
    InstructionList.contains_iff_position?.2
      ⟨0, InstructionList.position?_of_first? head⟩
  obtain ⟨l, inserted⟩ := InstructionList.insertAll_isOk listed fun c hc id mem => named c hc id mem ▸ listed
  have starts : b.instructions.items.head?.map (·.id) = some first.id := congrArg (Option.map (·.id)) head
  exact ⟨l, MethodBody.apply_eq_ok.2 ⟨_, MethodBody.editInstructions_eq_ok.2 ⟨l, inserted, rfl⟩⟩,
    ⟨InstructionList.items_insertAll inserted (List.nil_append _).symm starts⟩⟩

lemma MethodBody.removeInstruction_isOk {b : MethodBody} {id next : InstrId}
    (behind : b.instructions.successor? id = some next) :
    ∃ b', b.apply (MethodBody.removeInstruction id) = .ok b' := by
  obtain ⟨i, _, done⟩ := InstructionList.remove_of_successor? behind
  have removes := MethodBody.removeInstruction_of_ok done fun none => by cases none.symm.trans behind
  exact ⟨_, MethodBody.apply_eq_ok.2 ⟨_, removes⟩⟩

namespace Weaving

variable {w : Weaving}

/-! ## Checks -/

/-- The fault says that the hook does not fit its target. -/
def IsMisfit (w : Weaving) (e : Fault) : Prop :=
  ∃ reason, e = .misfit w.request.hookName w.targetName reason

lemma IsMisfit.isRefusal (e : Fault) (h : w.IsMisfit e) : e.IsRefusal := by
  obtain ⟨reason, rfl⟩ := h
  trivial

lemma failsWith_misfit {reason : Misfit} :
    FailsWith w.IsMisfit (w.misfit reason : Except Fault α) :=
  .error ⟨reason, rfl⟩

lemma failsWith_checkReceiver : FailsWith w.IsMisfit w.checkReceiver := by
  unfold checkReceiver
  split
  · exact .ok
  · exact .ite (fun _ => failsWith_misfit) fun _ => .ite (fun _ => failsWith_misfit) fun _ => .ok

lemma failsWith_checkResult {p : Parameter} : FailsWith w.IsMisfit (w.checkResult p) :=
  .ite (fun _ => failsWith_misfit) fun _ => .ite (fun _ => failsWith_misfit) fun _ => .ok

lemma failsWith_checkParameters {position : Nat} {params : List Parameter} :
    FailsWith w.IsMisfit (w.checkParameters position params) := by
  induction params generalizing position with
  | nil => exact .ok
  | cons p params ih =>
    unfold checkParameters
    refine .ite (fun _ => .bind failsWith_checkResult fun _ _ => ih) fun _ => ?_
    exact .ite (fun _ => failsWith_misfit) fun _ => .ite (fun _ => failsWith_misfit) fun _ => ih

lemma failsWith_checkReturn : FailsWith w.IsMisfit w.checkReturn :=
  .ite (fun _ => failsWith_misfit) fun _ => .ok

/-- A check fails only because the hook does not fit. -/
lemma failsWith_check : FailsWith w.IsMisfit w.check := by
  unfold check
  cases static : w.request.hookIsStatic with
  | false => exact .bind failsWith_misfit nofun
  | true =>
    refine .bind failsWith_checkReceiver fun _ _ => ?_
    exact .bind failsWith_checkParameters fun _ _ => failsWith_checkReturn

/-! ## Bodies -/

/-- The only instruction that the code behind the call names is the first of the target. -/
lemma eq_of_mem_targets_dispatch {result : Option UInt16} {first id : InstrId} {c : OpCode × Operand}
    (hc : c ∈ w.dispatch result first) (named : id ∈ c.2.targets) :
    id = first := by
  unfold dispatch at hc
  split_ifs at hc with skips void
  · cases hc with
    | head => exact List.mem_singleton.1 named
    | tail _ hc =>
      cases List.mem_append.1 hc with
      | inl load =>
        obtain ⟨slot, _, rfl⟩ := Option.map_eq_some_iff.1 (Option.mem_toList.1 load)
        rw [(ShortForm.plain_loadLocal slot).targets] at named
        cases named
      | inr ret =>
        cases List.mem_singleton.1 ret
        cases named
  · cases hc
  · cases List.mem_singleton.1 hc
    cases named

/-- The only instruction that the prologue names is the first of the target. -/
lemma eq_of_mem_targets_prologue {result : Option UInt16} {first id : InstrId} {code : Code}
    {c : OpCode × Operand} (written : w.prologue result first = .ok code) (hc : c ∈ code)
    (named : id ∈ c.2.targets) : id = first := by
  obtain ⟨loads, loaded, rfl⟩ := prologue_eq_ok written
  cases List.mem_append.1 hc with
  | inl front =>
    have plain : Plain c := by
      cases List.mem_append.1 front with
      | inl prepares => exact (plain_preparation w result true 0).1 c prepares
      | inr load => exact (plain_loads loaded).2 c load
    rw [plain.targets] at named
    cases named
  | inr calls =>
    cases calls with
    | head => cases named
    | tail _ dispatched => exact eq_of_mem_targets_dispatch dispatched named

lemma failsWith_body : FailsWith Fault.IsRefusal w.body := by
  unfold body
  split
  · exact .ok
  · exact .error trivial

lemma failsWith_loads {result : Option UInt16} {position : Nat} {params : List Parameter} :
    FailsWith Fault.IsRefusal (w.loads result position params) := by
  induction params generalizing position with
  | nil => exact .ok
  | cons p params ih =>
    have slot : FailsWith Fault.IsRefusal (w.argumentSlot position) :=
      .ite (fun _ => .ok) fun _ => .error trivial
    unfold loads
    split
    · exact .bind ih fun _ _ => .ok
    · exact .bind slot fun _ _ => .bind ih fun _ _ => .ok

lemma failsWith_balanced {b : MethodBody} : FailsWith Fault.IsRefusal (w.balanced b) := by
  intro e failed
  obtain ⟨_, _, rfl⟩ := mapError_eq_error.1 failed
  trivial

lemma failsWith_withResult {b : MethodBody} (room : b.locals.length < MethodBody.maxLocals) :
    FailsWith Fault.IsRefusal (w.withResult b) := by
  have added : FailsWith Fault.IsRefusal (b.addLocal w.target.ret) := by
    rw [MethodBody.addLocal_eq_ok.2 ⟨room, rfl, rfl⟩]
    exact .ok
  unfold withResult
  cases void : w.usesResult && !w.target.returnsValue with
  | true => exact .bind (failsWith_misfit.imp IsMisfit.isRefusal) nofun
  | false =>
    show FailsWith Fault.IsRefusal (if w.hasResult then _ else _)
    exact .ite (fun _ => .bind added fun _ _ => .ok) fun _ => .ok

lemma failsWith_bodyAfter : FailsWith Fault.IsRefusal w.bodyAfter := by
  refine .bind failsWith_body fun b there => ?_
  cases final : b.instructions.last?.filter (·.op = .ret) with
  | none => exact .error trivial
  | some last =>
    refine .bind (.bind failsWith_loads fun _ _ => .ok) fun code written => ?_
    obtain ⟨found, _⟩ := Option.filter_eq_some_iff.1 final
    obtain ⟨pre, split⟩ := List.getLast?_eq_some_iff.1 found
    obtain ⟨c, others, rfl⟩ : ∃ c others, code = c :: others := by
      obtain ⟨loads, _, rfl⟩ := epilogue_eq_ok written
      exact List.exists_cons_of_ne_nil (by simp)
    obtain ⟨b', edited⟩ : ∃ b', MethodBody.apply _ (MethodBody.removeInstruction last.id) = .ok b' :=
      MethodBody.removeInstruction_isOk
        (b := { b with instructions := b.instructions.pushAll (c :: others) })
        (successor?_pushAll split)
    refine .bind (fun e failed => ?_) fun _ _ => failsWith_balanced
    cases edited.symm.trans failed

lemma failsWith_bodyBefore
    (room : ∀ b, w.target.body = some b → b.locals.length < MethodBody.maxLocals) :
    FailsWith Fault.IsRefusal w.bodyBefore := by
  refine .bind failsWith_body fun b there => ?_
  cases head : b.instructions.first? with
  | none => exact .error trivial
  | some first =>
    refine .bind (failsWith_withResult (room b (body_eq_ok.1 there))) fun made extended => ?_
    obtain ⟨result, b'⟩ := made
    refine .bind (.bind failsWith_loads fun _ _ => .ok) fun code written => ?_
    have same : b'.instructions = b.instructions := by
      obtain ⟨_, _, rfl⟩ | ⟨_, slot, _, added⟩ := (of_withResult_eq_ok extended).2
      · rfl
      · obtain ⟨_, _, rfl⟩ := MethodBody.addLocal_eq_ok.1 added
        rfl
    obtain ⟨l, edited, _⟩ := MethodBody.insertAll_isOk (same ▸ head)
      fun c hc id named => eq_of_mem_targets_prologue written hc named
    refine .bind (fun e failed => ?_) fun _ _ => failsWith_balanced
    cases edited.symm.trans failed

/-- A weave only fails because the hook does not fit its target or because the target's body cannot
take it, if there is room for one more local. -/
theorem failsWith_weave {verify : Bool}
    (room : ∀ b, w.target.body = some b → b.locals.length < MethodBody.maxLocals) :
    FailsWith Fault.IsRefusal (w.weave verify) := by
  have checked {made : Except Fault MethodBody} (h : FailsWith Fault.IsRefusal made) :
      FailsWith Fault.IsRefusal (do
        if verify then
          w.check
        let body ← made
        return { w.target with body := some body } : Except Fault MethodDeclaration) := by
    cases verify with
    | true => exact .bind (failsWith_check.imp IsMisfit.isRefusal) fun _ _ => .bind h fun _ _ => .ok
    | false => exact .bind h fun _ _ => .ok
  unfold weave
  cases w.request.kind with
  | before => exact checked (failsWith_bodyBefore room)
  | after => exact checked failsWith_bodyAfter

end Weaving
end HookWeave

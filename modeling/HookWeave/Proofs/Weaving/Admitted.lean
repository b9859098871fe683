import HookWeave.Proofs.Image.RoundTrip
import HookWeave.Proofs.Weaving.Ahead

/-!
# Woven methods can be read

A target that a reader admits is still one with a hook woven into it (`Weaving.admitted_of_weave`). The
code around the call of the hook holds no references but to the hook and to the type of the target's
result, no clause becomes another kind, and the only local that is added has the type of the result.
-/

namespace HookWeave

variable {code : List (OpCode × Operand)} {old new : InstrId}

lemma Operand.references_retarget (operand : Operand) :
    (operand.retarget old new).references = operand.references := by
  cases operand with
  | _ => rfl

lemma InstructionList.references_number (n : Nat) (code : List (OpCode × Operand)) :
    (number n code).flatMap (·.operand.references) = code.flatMap (·.2.references) := by
  induction code generalizing n with
  | nil => rfl
  | cons c code ih =>
    rw [number, List.flatMap_cons, List.flatMap_cons, ih]

lemma ExceptionClause.Usual.retarget {c : ExceptionClause} {new : Option InstrId} (h : c.Usual) :
    (c.retarget old new).Usual :=
  h

namespace ShortForm

variable (slot : UInt16)

lemma references_loadArg : (loadArg slot).2.references = [] := by
  unfold loadArg
  split_ifs <;> rfl

lemma references_loadLocal : (loadLocal slot).2.references = [] := by
  unfold loadLocal
  split_ifs <;> rfl

lemma references_storeLocal : (storeLocal slot).2.references = [] := by
  unfold storeLocal
  split_ifs <;> rfl

lemma references_loadLocalAddress : (loadLocalAddress slot).2.references = [] := by
  unfold loadLocalAddress
  split_ifs <;> rfl

end ShortForm

namespace Weaving

variable {w : Weaving} {target' : MethodDeclaration} {body' : MethodBody} {slot : Option UInt16}

lemma references_loads {position : Nat} {params : List Parameter} {code : Code}
    (h : w.loads slot position params = .ok code) : code.flatMap (·.2.references) = [] := by
  replace h := loading_of_loads h
  induction h with
  | nil => rfl
  | @result _ _ _ slot _ _ _ ih =>
    rw [List.flatMap_cons, ih, List.append_nil]
    unfold loadResult
    split_ifs
    · exact ShortForm.references_loadLocal slot
    · exact ShortForm.references_loadLocalAddress slot
  | @argument _ _ _ slot _ _ _ _ ih =>
    rw [List.flatMap_cons, ih, List.append_nil]
    exact ShortForm.references_loadArg slot

/-- What prepares the local for the result names nothing but what the result is the address of. -/
lemma references_preparation {r : Reference}
    (h : r ∈ (w.preparation slot).flatMap (·.2.references)) :
    ∃ element, w.target.ret = .byRef element ∧ r = .type element := by
  cases slot with
  | none => exact nomatch h
  | some slot =>
    have h : r ∈ (w.makeResult slot).flatMap (·.2.references) := h
    by_cases value : w.target.ret.isByRef = false
    · rw [makeResult_value value] at h
      exact nomatch h
    · rw [Bool.not_eq_false] at value
      obtain ⟨element, ofType⟩ := eq_byRef_of_isByRef value
      have named : (w.makeResult slot).flatMap (·.2.references) = [.type element, .type element] := by
        rw [makeResult_byRef ofType]
        show .type element :: .type element :: ((ShortForm.storeLocal slot).2.references ++ []) = _
        rw [ShortForm.references_storeLocal]
        rfl
      rw [named, List.mem_cons, List.mem_singleton, or_self] at h
      exact ⟨element, ofType, h⟩

lemma references_dispatch {first : InstrId} :
    (w.dispatch slot first).flatMap (·.2.references) = [] := by
  unfold dispatch
  split_ifs
  · cases slot with
    | none => rfl
    | some slot =>
      show (ShortForm.loadLocal slot).2.references ++ [] = []
      rw [ShortForm.references_loadLocal]
      rfl
  · rfl
  · rfl

/-- What runs ahead of a target names the hook, and what the result is the address of. -/
lemma references_prologue {first : InstrId} {code : Code} {r : Reference}
    (h : w.prologue slot first = .ok code) (hr : r ∈ code.flatMap (·.2.references)) :
    r = .method w.request.hook ∨ ∃ element, w.target.ret = .byRef element ∧ r = .type element := by
  obtain ⟨loads, loaded, rfl⟩ := prologue_eq_ok h
  rw [List.flatMap_append, List.flatMap_append, List.flatMap_cons, references_loads loaded,
    references_dispatch, List.append_nil, List.append_nil] at hr
  cases List.mem_append.1 hr with
  | inl prepared => exact .inr (references_preparation prepared)
  | inr called => exact .inl (List.mem_singleton.1 called)

/-- What takes the place of the last return names the hook alone. -/
lemma references_epilogue {code : Code} (h : w.epilogue = .ok code) :
    code.flatMap (·.2.references) = [.method w.request.hook] := by
  obtain ⟨loads, loaded, rfl⟩ := epilogue_eq_ok h
  have drop : (if w.target.returnsValue then [(.pop, .none)] else [] : Code).flatMap
      (·.2.references) = [] := by
    split_ifs
    · rfl
    · rfl
  rw [List.flatMap_append, List.flatMap_append, drop, references_loads loaded]
  rfl

lemma shallow_prologue {first : InstrId} {code : Code} (h : w.prologue slot first = .ok code)
    (ret : w.target.ret.Shallow) (hook : w.request.hook.sig.Shallow) :
    ∀ r ∈ code.flatMap (·.2.references), Reference.Shallow r := by
  intro r hr
  obtain rfl | ⟨element, ofType, rfl⟩ := references_prologue h hr
  · exact hook
  · rw [ofType] at ret
    exact Nat.lt_of_succ_lt ret

lemma shallow_epilogue {code : Code} (h : w.epilogue = .ok code) (hook : w.request.hook.sig.Shallow) :
    ∀ r ∈ code.flatMap (·.2.references), Reference.Shallow r := by
  rw [references_epilogue h]
  exact List.forall_mem_singleton.2 hook

/-- A body that can be read can be read with a hook ahead of it. -/
lemma readable_bodyBefore (h : w.bodyBefore = .ok body') (target : w.target.Admitted)
    (hook : w.request.hook.sig.Shallow) : body'.Readable := by
  obtain ⟨body, first, result, code, there, _, written, items, clauses, _, extended, _⟩ :=
    of_bodyBefore_eq_ok h
  have readable := target.body body there
  refine ⟨?_, ?_, clauses ▸ readable.clauses⟩
  · obtain ⟨_, _, same⟩ | ⟨_, _, _, same⟩ := extended
    · rw [same]
      exact readable.locals
    · rw [same]
      exact List.forall_mem_append.2 ⟨readable.locals, List.forall_mem_singleton.2 target.ret⟩
  · rw [InstructionList.references, items, List.flatMap_append, InstructionList.references_number]
    exact List.forall_mem_append.2 ⟨shallow_prologue written target.ret hook, readable.references⟩

/-- A body that can be read can be read with a hook in place of its last return. -/
lemma readable_bodyAfter (h : w.bodyAfter = .ok body') (target : w.target.Admitted)
    (hook : w.request.hook.sig.Shallow) : body'.Readable := by
  obtain ⟨body, pre, last, code, there, split, _, written, items, clauses, locals, _⟩ :=
    of_bodyAfter_eq_ok h
  have readable := target.body body there
  refine ⟨locals ▸ readable.locals, ?_, ?_⟩
  · have front : ∀ r ∈ pre.flatMap (·.operand.references), Reference.Shallow r := by
      have references := readable.references
      rw [InstructionList.references, split, List.flatMap_append] at references
      exact (List.forall_mem_append.1 references).1
    rw [InstructionList.references, items, List.flatMap_append, InstructionList.references_number,
      List.flatMap_map]
    refine List.forall_mem_append.2 ⟨?_, shallow_epilogue written hook⟩
    simpa only [Instruction.retarget, Operand.references_retarget] using front
  · rw [clauses]
    refine List.forall_mem_map.2 fun c hc => ?_
    exact (readable.clauses c hc).retarget

/-- A target that a reader admits is still one with a hook woven into it. -/
theorem admitted_of_weave {verify : Bool} (h : w.weave verify = .ok target')
    (target : w.target.Admitted) (hook : w.request.hook.sig.Shallow) : target'.Admitted := by
  obtain ⟨body', rfl, before, after⟩ := body_of_weave_eq_ok h
  refine ⟨target.params, target.ret, target.attributes, fun body same => ?_⟩
  cases same
  cases kind : w.request.kind with
  | before => exact readable_bodyBefore (before kind) target hook
  | after => exact readable_bodyAfter (after kind) target hook

end Weaving
end HookWeave

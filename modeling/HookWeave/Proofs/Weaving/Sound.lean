import HookWeave.Proofs.Image.Sound
import HookWeave.Proofs.Weaving.Admitted

/-!
# Woven methods stay sound

A method that is sound but for its size is so with a hook woven into it (`Weaving.sound_of_weave`). The
operands of the code around the call of the hook are those that its opcodes take, the branch that it may
hold leads to the target over a load and a return, and what it names are the hook and what the target's
result is the address of.
-/

namespace HookWeave

variable {l l' : InstructionList} {pre : List Instruction} {last : Instruction}
  {code rest : List (OpCode × Operand)} {first : InstrId} {c : ExceptionClause}

/-! ## Pieces of code -/

namespace ShortForm

variable (slot : UInt16)

lemma takes_loadArg : Takes (loadArg slot) := by
  unfold loadArg
  split_ifs with _ _ _ _ small
  · exact .none
  · exact .none
  · exact .none
  · exact .none
  · exact .arg8 small
  · exact .arg16

lemma takes_loadLocal : Takes (loadLocal slot) := by
  unfold loadLocal
  split_ifs with _ _ _ _ small
  · exact .none
  · exact .none
  · exact .none
  · exact .none
  · exact .loc8 small
  · exact .loc16

lemma takes_storeLocal : Takes (storeLocal slot) := by
  unfold storeLocal
  split_ifs with _ _ _ _ small
  · exact .none
  · exact .none
  · exact .none
  · exact .none
  · exact .loc8 small
  · exact .loc16

lemma takes_loadLocalAddress : Takes (loadLocalAddress slot) := by
  unfold loadLocalAddress
  split_ifs with small
  · exact .loc8 small
  · exact .loc16

end ShortForm

/-- Code without branches ahead of code that leads to an instruction leads there, too. -/
lemma Leads.append (takes : ∀ c ∈ code, Takes c) {n : Nat} (h : Leads first n rest) :
    ∃ n, Leads first n (code ++ rest) := by
  induction code with
  | nil => exact ⟨n, h⟩
  | cons c code ih =>
    obtain ⟨here, others⟩ := List.forall_mem_cons.1 takes
    obtain ⟨k, size⟩ := OperandKind.Holds.size? here
    obtain ⟨n, leads⟩ := ih others
    exact ⟨_, .plain here size leads⟩

/-- An opcode takes two bytes at most. -/
lemma OpCode.size_le (op : OpCode) : op.size ≤ 2 := by
  unfold size
  split_ifs
  · exact Nat.le_refl 2
  · exact Nat.le_succ 1

/-- A return alone takes one byte. -/
lemma leads_ret : Leads first 1 [(.ret, .none)] := by
  have takes : Takes (.ret, .none) := .none
  exact .plain takes rfl .nil

/-- The load of a local and a return take few bytes. -/
lemma leads_loadLocal (slot : UInt16) :
    ∃ n ≤ 127, Leads first n [ShortForm.loadLocal slot, (.ret, .none)] := by
  have size : ∃ k ≤ 2, (ShortForm.loadLocal slot).1.info.kind.size? = some k := by
    unfold ShortForm.loadLocal
    split_ifs
    all_goals exact ⟨_, by decide, rfl⟩
  have takes := ShortForm.takes_loadLocal slot
  generalize ShortForm.loadLocal slot = c at size takes
  obtain ⟨op, v⟩ := c
  obtain ⟨k, le, size⟩ := size
  have opcode := op.size_le
  exact ⟨op.size + k + 1, by omega, .plain takes size leads_ret⟩

/-! ## Clauses -/

namespace ExceptionClause.Loaded

/-- A clause has its regions where they were when code is put in front. -/
lemma fronted (h : c.Loaded l) (fronted : l.Fronted l' code) : c.Loaded l' :=
  ⟨h.usual, ⟨h.ordered.guarded.fronted fronted, h.ordered.handler.fronted fronted⟩, h.mentions⟩

/-- A clause has its regions where they were when its boundaries move with the names. -/
lemma ended (h : c.Loaded l) (ended : l.Ended l' pre last code) :
    (c.retarget last.id (some ⟨l.nextId⟩)).Loaded l' := by
  have stop (id : Option InstrId) : (if id = some last.id then some ⟨l.nextId⟩ else id)
      = id.map (·.replace last.id ⟨l.nextId⟩) := by
    cases id with
    | none => rfl
    | some id =>
      show _ = some (if id = last.id then _ else id)
      by_cases same : id = last.id
      · rw [if_pos (congrArg some same), if_pos same]
      · rw [if_neg fun h => same (Option.some.inj h), if_neg same]
  refine ⟨h.usual.retarget, ⟨?_, ?_⟩, h.mentions⟩
  · have moved := h.ordered.guarded.ended ended
    rw [← stop] at moved
    exact moved
  · have moved := h.ordered.handler.ended ended
    rw [← stop] at moved
    exact moved

end ExceptionClause.Loaded

/-- The type of the result was loaded with the signature. -/
lemma MethodSig.Loaded.ret {s : MethodSig} (h : s.Loaded) : s.ret.Loaded :=
  ⟨h.shallow.ret, (List.forall_mem_append.1 (List.forall_mem_cons.1 h.mentions).2).1⟩

namespace Weaving

variable {w : Weaving} {target' : MethodDeclaration} {body' : MethodBody} {slot : Option UInt16}

lemma takes_loads {position : Nat} {params : List Parameter} {code : Code}
    (h : w.loads slot position params = .ok code) : ∀ c ∈ code, Takes c := by
  replace h := loading_of_loads h
  induction h with
  | nil => exact List.forall_mem_nil _
  | @result _ _ _ slot _ _ _ ih =>
    refine List.forall_mem_cons.2 ⟨?_, ih⟩
    unfold loadResult
    split_ifs
    · exact ShortForm.takes_loadLocal slot
    · exact ShortForm.takes_loadLocalAddress slot
  | @argument _ _ _ slot _ _ _ _ ih =>
    exact List.forall_mem_cons.2 ⟨ShortForm.takes_loadArg slot, ih⟩

lemma takes_preparation (w : Weaving) (slot : Option UInt16) : ∀ c ∈ w.preparation slot, Takes c := by
  cases slot with
  | none => exact List.forall_mem_nil _
  | some slot =>
    show ∀ c ∈ w.makeResult slot, Takes c
    by_cases value : w.target.ret.isByRef = false
    · rw [makeResult_value value]
      exact List.forall_mem_nil _
    · rw [Bool.not_eq_false] at value
      obtain ⟨element, ofType⟩ := eq_byRef_of_isByRef value
      rw [makeResult_byRef ofType]
      simp only [List.forall_mem_cons]
      exact ⟨.none, .type, .none, .type, ShortForm.takes_storeLocal slot, List.forall_mem_nil _⟩

/-- The code behind the call leads to the target. -/
lemma leads_dispatch (w : Weaving) (slot : Option UInt16) (first : InstrId) :
    ∃ n, Leads first n (w.dispatch slot first) := by
  unfold dispatch
  split_ifs
  · cases slot with
    | none => exact ⟨_, .branch rfl (by decide) leads_ret⟩
    | some slot =>
      obtain ⟨n, near, leads⟩ := leads_loadLocal slot
      exact ⟨_, .branch rfl near leads⟩
  · exact ⟨0, .nil⟩
  · exact ⟨_, .plain .none rfl .nil⟩

/-- What runs ahead of a target leads to it. -/
lemma leads_prologue {code : Code} (h : w.prologue slot first = .ok code) :
    ∃ n, Leads first n code := by
  obtain ⟨loads, loaded, rfl⟩ := prologue_eq_ok h
  obtain ⟨n, leads⟩ := w.leads_dispatch slot first
  have ahead : ∀ c ∈ w.preparation slot ++ loads, Takes c :=
    List.forall_mem_append.2 ⟨w.takes_preparation slot, takes_loads loaded⟩
  exact Leads.append ahead (.plain .method rfl leads)

lemma takes_epilogue {code : Code} (h : w.epilogue = .ok code) : ∀ c ∈ code, Takes c := by
  obtain ⟨loads, loaded, rfl⟩ := epilogue_eq_ok h
  refine List.forall_mem_append.2 ⟨List.forall_mem_append.2 ⟨?_, takes_loads loaded⟩, ?_⟩
  · split_ifs
    · exact List.forall_mem_singleton.2 .none
    · exact List.forall_mem_nil _
  · exact List.forall_mem_cons.2 ⟨.method, List.forall_mem_singleton.2 .none⟩

/-! ## Bodies -/

/-- What the result is the address of was loaded with the signature. -/
lemma loaded_element {element : TypeSig} (h : w.target.sig.Loaded) (ofType : w.target.ret = .byRef element) :
    (Reference.type element).Loaded := by
  have ret := h.ret
  rw [show w.target.sig.ret = .byRef element from ofType] at ret
  have shallow : element.Shallow := Nat.lt_of_succ_lt ret.shallow
  exact ⟨shallow, List.forall_mem_cons.2 ⟨shallow, ret.mentions⟩⟩

/-- A sound body is sound with a hook ahead of it. -/
lemma sound_bodyBefore (h : w.bodyBefore = .ok body') (target : w.target.Sound)
    (hook : (Reference.method w.request.hook).Loaded) : body'.Sound := by
  obtain ⟨body, first, result, code, there, head, written, items, clauses, _, extended, _⟩ :=
    of_bodyBefore_eq_ok h
  have sound := target.body body there
  have fronted : body.instructions.Fronted body'.instructions code := ⟨items⟩
  refine ⟨?_, ?_, ?_, ?_⟩
  · obtain ⟨_, _, same⟩ | ⟨_, room, _, same⟩ := extended
    · rw [same]
      exact sound.locals
    · rw [same]
      refine ⟨?_, List.forall_mem_append.2 ⟨sound.locals.2, List.forall_mem_singleton.2 target.sig.ret⟩⟩
      rw [List.length_append]
      exact Nat.le_trans (Nat.succ_le_of_lt room) (by decide)
  · obtain ⟨ps, reaching⟩ := sound.code
    obtain ⟨n, leads⟩ := leads_prologue written
    exact reaching.fronted fronted (List.head?_eq_getElem?.symm.trans head) leads
  · rw [InstructionList.references, items, List.flatMap_append, InstructionList.references_number]
    refine List.forall_mem_append.2 ⟨fun r hr => ?_, sound.references⟩
    obtain rfl | ⟨element, ofType, rfl⟩ := references_prologue written hr
    · exact hook
    · exact loaded_element target.sig ofType
  · rw [clauses]
    exact sound.clauses.imp fun c _ loaded => loaded.fronted fronted

/-- A sound body is sound with a hook in place of its last return. -/
lemma sound_bodyAfter (h : w.bodyAfter = .ok body') (target : w.target.Sound)
    (hook : (Reference.method w.request.hook).Loaded) : body'.Sound := by
  obtain ⟨body, pre, last, code, there, split, _, written, items, clauses, locals, _⟩ :=
    of_bodyAfter_eq_ok h
  have sound := target.body body there
  have inhabited : code ≠ [] := by
    obtain ⟨loads, _, rfl⟩ := epilogue_eq_ok written
    simp
  have ended : body.instructions.Ended body'.instructions pre last code := ⟨split, items, inhabited⟩
  refine ⟨locals ▸ sound.locals, ?_, ?_, ?_⟩
  · obtain ⟨ps, reaching⟩ := sound.code
    exact reaching.ended ended (takes_epilogue written)
  · have front : ∀ r ∈ pre.flatMap (·.operand.references), r.Loaded := by
      have references := sound.references
      rw [InstructionList.references, split, List.flatMap_append] at references
      exact (List.forall_mem_append.1 references).1
    rw [InstructionList.references, items, List.flatMap_append, InstructionList.references_number,
      List.flatMap_map, references_epilogue written]
    refine List.forall_mem_append.2 ⟨?_, List.forall_mem_singleton.2 hook⟩
    simpa only [Instruction.retarget, Operand.references_retarget] using front
  · rw [clauses]
    refine ⟨(List.length_map _).trans_le sound.clauses.1, List.forall_mem_map.2 fun c hc => ?_⟩
    exact (sound.clauses.2 c hc).ended ended

/-- A sound method is sound with a hook woven into it. -/
theorem sound_of_weave {verify : Bool} (h : w.weave verify = .ok target') (target : w.target.Sound)
    (hook : (Reference.method w.request.hook).Loaded) : target'.Sound := by
  obtain ⟨body', rfl, before, after⟩ := body_of_weave_eq_ok h
  refine ⟨target.name, target.sig, target.params, target.attributes, fun body same => ?_⟩
  cases same
  cases kind : w.request.kind with
  | before => exact sound_bodyBefore (before kind) target hook
  | after => exact sound_bodyAfter (after kind) target hook

end Weaving
end HookWeave

import HookWeave.Hook.Weave
import HookWeave.Proofs.Code.Bounded
import HookWeave.Proofs.Weaving.Edits

/-!
# Woven bodies

What a weave that goes well puts together. Ahead of a target stands the prologue, and its first
instruction comes right behind (`of_bodyBefore_eq_ok`). After a target stands the epilogue, in place
of the last instruction (`of_bodyAfter_eq_ok`).
-/

namespace HookWeave

lemma MethodBody.addLocal_eq_ok {b b' : MethodBody} {type : TypeSig} {slot : UInt16} :
    b.addLocal type = .ok (slot, b') ↔ b.locals.length < maxLocals
      ∧ slot = UInt16.ofNat b.locals.length
      ∧ b' = { b with locals := b.locals ++ [type], initLocals := true } := by
  rw [addLocal]
  by_cases room : b.locals.length < maxLocals
  · simp only [room, if_true, Except.ok.injEq, Prod.mk.injEq, true_and]
    exact ⟨fun ⟨slot, body⟩ => ⟨slot.symm, body.symm⟩, fun ⟨slot, body⟩ => ⟨slot.symm, body.symm⟩⟩
  · simp only [room, if_false, reduceCtorEq, false_and]

namespace Weaving

variable {w : Weaving} {target' : MethodDeclaration} {body' b : MethodBody}

/-- The same hook with the same conventions, for another target. -/
def onto (w : Weaving) (target : MethodDeclaration) : Weaving :=
  { w with target }

/-- The woven body has a local for the result. -/
def hasResult (w : Weaving) : Bool :=
  w.usesResult || (w.maySkip && w.target.returnsValue)

/-- Whether the hook is checked or not, the target gets the body that is made. -/
lemma of_made_eq_ok {verify : Bool} {made : Except Fault MethodBody}
    (h : (do
      if verify then
        w.check
      let body ← made
      return { w.target with body := some body } : Except Fault MethodDeclaration) = .ok target') :
    ∃ body', made = .ok body' ∧ target' = { w.target with body := some body' } := by
  cases verify with
  | true =>
    obtain ⟨_, _, rest⟩ := bind_eq_ok.1 h
    obtain ⟨body', ok, same⟩ := bind_eq_ok.1 rest
    cases same
    exact ⟨body', ok, rfl⟩
  | false =>
    obtain ⟨body', ok, same⟩ := bind_eq_ok.1 h
    cases same
    exact ⟨body', ok, rfl⟩

/-- A weave that goes well puts the body in which the hook is called in place of the target's. -/
lemma body_of_weave_eq_ok {verify : Bool} (h : w.weave verify = .ok target') :
    ∃ body', target' = { w.target with body := some body' }
      ∧ (w.request.kind = .before → w.bodyBefore = .ok body')
      ∧ (w.request.kind = .after → w.bodyAfter = .ok body') := by
  unfold weave at h
  cases kind : w.request.kind with
  | before =>
    rw [kind] at h
    obtain ⟨body', made, same⟩ := of_made_eq_ok h
    exact ⟨body', same, fun _ => made, nofun⟩
  | after =>
    rw [kind] at h
    obtain ⟨body', made, same⟩ := of_made_eq_ok h
    exact ⟨body', same, nofun, fun _ => made⟩

/-- A checked weave goes well only if the hook fits. -/
lemma of_weave_eq_ok (h : w.weave true = .ok target') :
    w.check = .ok () ∧ ∃ body', target' = { w.target with body := some body' }
      ∧ (w.request.kind = .before → w.bodyBefore = .ok body')
      ∧ (w.request.kind = .after → w.bodyAfter = .ok body') := by
  obtain ⟨_, checked, _⟩ := bind_eq_ok.1 h
  exact ⟨checked, body_of_weave_eq_ok h⟩

lemma body_eq_ok {body : MethodBody} : w.body = .ok body ↔ w.target.body = some body := by
  rw [Weaving.body]
  cases w.target.body with
  | some b =>
    constructor
    · intro h
      cases h
      rfl
    · intro h
      cases h
      rfl
  | none =>
    constructor
    · intro h
      cases h
    · intro h
      cases h

lemma of_balanced_eq_ok {body : MethodBody} (h : w.balanced body = .ok body') :
    ∃ m, body.instructions.maxStack body.handlerEntries w.target.returnsValue = .ok m
      ∧ body' = { body with maxStack := UInt16.ofNat m } := by
  obtain ⟨m, computed, same⟩ := bind_eq_ok.1 (mapError_eq_ok.1 h)
  cases same
  exact ⟨m, computed, rfl⟩

/-- The local for a result is added if the hook has a use for it, which it has only where there is a
result. -/
lemma of_withResult_eq_ok {body : MethodBody} {result : Option UInt16}
    (h : w.withResult body = .ok (result, body')) :
    (w.usesResult = true → w.target.returnsValue = true)
      ∧ ((w.hasResult = false ∧ result = none ∧ body' = body)
        ∨ (w.hasResult = true ∧ ∃ slot, result = some slot
          ∧ body.addLocal w.target.ret = .ok (slot, body'))) := by
  unfold withResult at h
  by_cases void : (w.usesResult && !w.target.returnsValue) = true
  · simp only [void, if_true] at h
    cases h
  · simp only [void] at h
    refine ⟨fun uses => ?_, ?_⟩
    · by_contra none
      exact void (by rw [uses, Bool.eq_false_iff.2 none]; rfl)
    · cases has : w.hasResult with
      | true =>
        rw [show (w.usesResult || (w.maySkip && w.target.returnsValue)) = true from has] at h
        obtain ⟨⟨slot, b⟩, added, same⟩ := bind_eq_ok.1 h
        cases same
        exact .inr ⟨rfl, slot, rfl, added⟩
      | false =>
        rw [show (w.usesResult || (w.maySkip && w.target.returnsValue)) = false from has] at h
        cases h
        exact .inl ⟨rfl, rfl, rfl⟩

/-- A hook woven ahead of a body stands before its instructions. The locals may be one more, for the
result, and then they hold zeros on entry; the stack balances. -/
theorem of_bodyBefore_eq_ok (h : w.bodyBefore = .ok body') :
    ∃ body first result code, w.target.body = some body ∧ body.instructions.first? = some first
      ∧ w.prologue result first.id = .ok code
      ∧ body'.instructions.items
        = InstructionList.number body.instructions.nextId code ++ body.instructions.items
      ∧ body'.clauses = body.clauses
      ∧ (w.usesResult = true → w.target.returnsValue = true)
      ∧ ((w.hasResult = false ∧ result = none ∧ body'.locals = body.locals)
        ∨ (w.hasResult = true ∧ body.locals.length < MethodBody.maxLocals
          ∧ result = some (UInt16.ofNat body.locals.length)
          ∧ body'.locals = body.locals ++ [w.target.ret]))
      ∧ ∃ m, body'.instructions.maxStack body'.handlerEntries w.target.returnsValue = .ok m
        ∧ body'.maxStack = UInt16.ofNat m
        ∧ body'.initLocals = (body.initLocals || w.hasResult) := by
  obtain ⟨body, there, made⟩ := bind_eq_ok.1 h
  cases first : body.instructions.first? with
  | none =>
    simp only [first] at made
    cases made
  | some i =>
    simp only [first] at made
    obtain ⟨⟨result, b⟩, extended, inserted⟩ := bind_eq_ok.1 made
    obtain ⟨code, written, rest⟩ := bind_eq_ok.1 inserted
    obtain ⟨b₁, edited, balanced⟩ := bind_eq_ok.1 rest
    obtain ⟨_, done⟩ := MethodBody.apply_eq_ok.1 edited
    obtain ⟨l, stood, rfl⟩ := MethodBody.editInstructions_eq_ok.1 done
    obtain ⟨m, computed, rfl⟩ := of_balanced_eq_ok balanced
    obtain ⟨returns, grown⟩ := of_withResult_eq_ok extended
    have head : body.instructions.items.head?.map (·.id) = some i.id := by
      rw [show body.instructions.items.head? = some i from first]
      rfl
    refine ⟨body, i, result, code, body_eq_ok.1 there, first, written, ?_⟩
    obtain ⟨has, rfl, rfl⟩ | ⟨has, slot, rfl, added⟩ := grown
    · exact ⟨InstructionList.items_insertAll stood (List.nil_append _).symm head, rfl, returns,
        .inl ⟨has, rfl, rfl⟩, m, computed, rfl, by rw [has, Bool.or_false]⟩
    · obtain ⟨room, rfl, rfl⟩ := MethodBody.addLocal_eq_ok.1 added
      exact ⟨InstructionList.items_insertAll stood (List.nil_append _).symm head, rfl, returns,
        .inr ⟨has, room, rfl, rfl⟩, m, computed, rfl, by rw [has, Bool.or_true]⟩

/-! ## After the target -/

lemma plain_loadResult (w : Weaving) (slot : UInt16) : Plain (w.loadResult slot) := by
  unfold loadResult
  split_ifs
  · exact ShortForm.plain_loadLocal slot
  · exact ShortForm.plain_loadLocalAddress slot

lemma stackEffect_loadResult (w : Weaving) (slot : UInt16) (returnsValue : Bool) :
    (Instruction.ofCode ⟨0⟩ (w.loadResult slot)).stackEffect returnsValue = .ok ⟨0, 1⟩ := by
  unfold loadResult
  split_ifs
  · exact ShortForm.stackEffect_loadLocal slot returnsValue ⟨0⟩
  · exact ShortForm.stackEffect_loadLocalAddress slot returnsValue ⟨0⟩

/-- Code loads what parameters take, one after another: each the result from its slot, or else the next
argument. -/
inductive Loading (w : Weaving) (result : Option UInt16) : Nat → List Parameter → Code → Prop
  | nil {position : Nat} : Loading w result position [] []
  | result {position : Nat} {p : Parameter} {params : List Parameter} {slot : UInt16} {code : Code} :
    (result.filter fun _ => w.takesResult p) = some slot →
    Loading w result position params code →
    Loading w result position (p :: params) (w.loadResult slot :: code)
  | argument {position : Nat} {p : Parameter} {params : List Parameter} {slot : UInt16} {code : Code} :
    (result.filter fun _ => w.takesResult p) = none →
    w.argumentSlot position = .ok slot →
    Loading w result (position + 1) params code →
    Loading w result position (p :: params) (ShortForm.loadArg slot :: code)

lemma loading_of_loads {result : Option UInt16} {position : Nat} {params : List Parameter} {code : Code}
    (h : w.loads result position params = .ok code) : w.Loading result position params code := by
  induction params generalizing position code with
  | nil =>
    cases h
    exact .nil
  | cons p params ih =>
    unfold loads at h
    cases taken : result.filter fun _ => w.takesResult p with
    | some slot =>
      simp only [taken] at h
      obtain ⟨rest, loaded, same⟩ := bind_eq_ok.1 h
      cases same
      exact .result taken (ih loaded)
    | none =>
      simp only [taken] at h
      obtain ⟨slot, found, more⟩ := bind_eq_ok.1 h
      obtain ⟨rest, loaded, same⟩ := bind_eq_ok.1 more
      cases same
      exact .argument taken found (ih loaded)

/-- The loads push a value each, one for each parameter. -/
lemma pushing_loads {result : Option UInt16} {position : Nat} {params : List Parameter} {code : Code}
    (h : w.loads result position params = .ok code) :
    code.length = params.length ∧ ∀ c ∈ code, Plain c ∧ ∀ returnsValue,
      (Instruction.ofCode ⟨0⟩ c).stackEffect returnsValue = .ok ⟨0, 1⟩ := by
  replace h := loading_of_loads h
  induction h with
  | nil => exact ⟨rfl, List.forall_mem_nil _⟩
  | @result _ _ _ slot _ _ _ ih =>
    obtain ⟨length, pushing⟩ := ih
    refine ⟨congrArg (· + 1) length, List.forall_mem_cons.2 ⟨?_, pushing⟩⟩
    exact ⟨w.plain_loadResult slot, w.stackEffect_loadResult slot⟩
  | @argument _ _ _ slot _ _ _ _ ih =>
    obtain ⟨length, pushing⟩ := ih
    refine ⟨congrArg (· + 1) length, List.forall_mem_cons.2 ⟨?_, pushing⟩⟩
    exact ⟨ShortForm.plain_loadArg slot, fun v => ShortForm.stackEffect_loadArg slot v ⟨0⟩⟩

lemma plain_loads {result : Option UInt16} {position : Nat} {params : List Parameter} {code : Code}
    (h : w.loads result position params = .ok code) :
    code.length = params.length ∧ ∀ c ∈ code, Plain c := by
  obtain ⟨length, pushing⟩ := pushing_loads h
  exact ⟨length, fun c hc => (pushing c hc).1⟩

/-- What is worked out from behind over code that pushes values is worked out over the loads. -/
lemma push_loads {P : Code → Nat → Prop} {result : Option UInt16} {position d : Nat} {params : List Parameter}
    {code rest : Code} (h : w.loads result position params = .ok code)
    (push : ∀ c code d, Plain c → (∀ returnsValue,
      (Instruction.ofCode ⟨0⟩ c).stackEffect returnsValue = .ok ⟨0, 1⟩) → P code (d + 1) → P (c :: code) d)
    (behind : P rest (d + params.length)) : P (code ++ rest) d := by
  obtain ⟨length, pushing⟩ := pushing_loads h
  rw [← length] at behind
  clear h length
  induction code generalizing d with
  | nil => exact behind
  | cons c code ih =>
    obtain ⟨⟨plain, takes⟩, others⟩ := List.forall_mem_cons.1 pushing
    rw [List.length_cons, Nat.add_comm code.length, ← Nat.add_assoc] at behind
    exact push c _ d plain takes (ih behind others)

/-- The loads put a value on the stack for each parameter. -/
lemma lifts_loads {result : Option UInt16} {position d : Nat} {params : List Parameter} {code : Code}
    (returnsValue : Bool) (h : w.loads result position params = .ok code) :
    Lifts returnsValue code d (d + params.length) := by
  have lifts : Lifts returnsValue (code ++ []) d (d + params.length) :=
    push_loads (P := fun code e => Lifts returnsValue code e (d + params.length)) h
      (fun _ _ _ _ takes onward => ⟨_, takes returnsValue, onward⟩) rfl
  rwa [List.append_nil] at lifts

/-- The epilogue drops the target's result, loads what the hook takes, calls it and returns. -/
lemma epilogue_eq_ok {code : Code} (h : w.epilogue = .ok code) :
    ∃ loads, w.loads none 0 w.request.hookParams = .ok loads
      ∧ code = (if w.target.returnsValue then [(.pop, .none)] else []) ++ loads
        ++ [w.call, (.ret, .none)] := by
  obtain ⟨loads, loaded, same⟩ := bind_eq_ok.1 h
  cases same
  exact ⟨loads, loaded, rfl⟩

lemma targets_epilogue {code : Code} (h : w.epilogue = .ok code) : ∀ c ∈ code, c.2.targets = [] := by
  obtain ⟨loads, loaded, rfl⟩ := epilogue_eq_ok h
  intro c hc
  cases List.mem_append.1 hc with
  | inl hc =>
    cases List.mem_append.1 hc with
    | inl dropped =>
      split_ifs at dropped
      · cases List.mem_singleton.1 dropped
        rfl
      · cases dropped
    | inr hc => exact ((plain_loads loaded).2 c hc).targets
  | inr hc =>
    cases hc with
    | head => rfl
    | tail _ hc =>
      cases List.mem_singleton.1 hc
      rfl

lemma id_ne_of_mem_number {n : Nat} {code : Code} {id : InstrId} {i : Instruction}
    (earlier : id.val < n) (h : i ∈ InstructionList.number n code) : i.id ≠ id := by
  have := (InstructionList.le_of_mem_number h).1
  intro same
  rw [same] at this
  omega

/-- Code that names no instruction stays when targets are replaced. -/
lemma map_retarget_number {n : Nat} {code : Code} {old new : InstrId}
    (plain : ∀ c ∈ code, c.2.targets = []) :
    (InstructionList.number n code).map (·.retarget old new) = InstructionList.number n code := by
  induction code generalizing n with
  | nil => rfl
  | cons c code ih =>
    obtain ⟨named, others⟩ := List.forall_mem_cons.1 plain
    show _ :: _ = _ :: _
    rw [ih others]
    refine congrArg (· :: _) ?_
    show Instruction.mk _ _ (Operand.retarget old new c.2) = _
    rw [Operand.retarget_eq_self named]

/-- A list that has code behind its last instruction, without that instruction. Branches to it go to
the first of the code. -/
lemma items_replaceLast {l : InstructionList} {pre : List Instruction} {last : Instruction}
    {new : InstrId} {code : Code} (split : l.items = pre ++ [last])
    (plain : ∀ c ∈ code, c.2.targets = []) :
    (((l.pushAll code).retarget last.id new).erase last.id).items
      = pre.map (·.retarget last.id new) ++ InstructionList.number l.nextId code := by
  show ((l.pushAll code).items.map (·.retarget last.id new)).filter (·.id ≠ last.id) = _
  rw [InstructionList.items_pushAll, split, List.map_append, List.map_append,
    map_retarget_number plain, List.append_assoc, List.filter_append, List.filter_append]
  have distinct := l.nodup
  rw [split, List.map_append, List.nodup_append] at distinct
  have kept : (pre.map (·.retarget last.id new)).filter (·.id ≠ last.id)
      = pre.map (·.retarget last.id new) := by
    refine List.filter_eq_self.2 fun i hi => decide_eq_true ?_
    obtain ⟨j, hj, rfl⟩ := List.mem_map.1 hi
    exact distinct.2.2 j.id (List.mem_map_of_mem hj) last.id (List.mem_singleton_self _)
  have behind : (InstructionList.number l.nextId code).filter (·.id ≠ last.id)
      = InstructionList.number l.nextId code := by
    have listed : last ∈ l.items := split ▸ List.mem_append_right _ (List.mem_singleton_self _)
    exact List.filter_eq_self.2 fun i hi =>
      decide_eq_true (id_ne_of_mem_number (l.below last listed) hi)
  have dropped : ([last].map (·.retarget last.id new)).filter (·.id ≠ last.id) = [] := by
    refine List.filter_eq_nil_iff.2 fun i hi => ?_
    cases List.mem_singleton.1 hi
    exact fun different => of_decide_eq_true different rfl
  rw [kept, behind, dropped]
  rfl

/-- Behind the last instruction comes the first of the code that is added. -/
lemma successor?_pushAll {l : InstructionList} {pre : List Instruction} {last : Instruction}
    {c : OpCode × Operand} {code : Code} (split : l.items = pre ++ [last]) :
    (l.pushAll (c :: code)).successor? last.id = some ⟨l.nextId⟩ := by
  have at' : (l.pushAll (c :: code)).items[pre.length]? = some last := by
    rw [InstructionList.items_pushAll, split, List.append_assoc,
      List.getElem?_append_right (Nat.le_refl _), Nat.sub_self]
    rfl
  rw [InstructionList.successor?_getElem at', InstructionList.items_pushAll, split,
    List.append_assoc, List.getElem?_append_right (Nat.le_succ _), Nat.succ_sub (Nat.le_refl _),
    Nat.sub_self]
  rfl

/-- A hook woven behind a body stands in place of its last instruction, a return. Branches and
clauses that named the return name the first of the code behind it, and the stack balances. -/
theorem of_bodyAfter_eq_ok (h : w.bodyAfter = .ok body') :
    ∃ body pre last code, w.target.body = some body ∧ body.instructions.items = pre ++ [last]
      ∧ last.op = .ret ∧ w.epilogue = .ok code
      ∧ body'.instructions.items
        = pre.map (·.retarget last.id ⟨body.instructions.nextId⟩)
          ++ InstructionList.number body.instructions.nextId code
      ∧ body'.clauses
        = body.clauses.map (·.retarget last.id (some ⟨body.instructions.nextId⟩))
      ∧ body'.locals = body.locals
      ∧ ∃ m, body'.instructions.maxStack body'.handlerEntries w.target.returnsValue = .ok m
        ∧ body'.maxStack = UInt16.ofNat m ∧ body'.initLocals = body.initLocals := by
  obtain ⟨body, there, made⟩ := bind_eq_ok.1 h
  cases final : body.instructions.last?.filter (·.op = .ret) with
  | none =>
    simp only [final] at made
    cases made
  | some last =>
    simp only [final] at made
    obtain ⟨code, written, rest⟩ := bind_eq_ok.1 made
    obtain ⟨b₁, edited, balanced⟩ := bind_eq_ok.1 rest
    obtain ⟨removed, done⟩ := MethodBody.apply_eq_ok.1 edited
    obtain ⟨m, computed, rfl⟩ := of_balanced_eq_ok balanced
    obtain ⟨found, returns⟩ := Option.filter_eq_some_iff.1 final
    obtain ⟨pre, split⟩ := List.getLast?_eq_some_iff.1 found
    obtain ⟨c, others, rfl⟩ : ∃ c others, code = c :: others := by
      obtain ⟨loads, _, rfl⟩ := epilogue_eq_ok written
      exact List.exists_cons_of_ne_nil (by simp)
    cases MethodBody.of_removeInstruction_eq_ok done (successor?_pushAll split)
    exact ⟨body, pre, last, c :: others, body_eq_ok.1 there, split, of_decide_eq_true returns, written,
      items_replaceLast split (targets_epilogue written), rfl, rfl, m, computed, rfl, rfl⟩

/-- A body is balanced if a search of so many steps comes to an end. -/
lemma balanced_of_within (w : Weaving) (n : Nat) {m : Nat} (inhabited : b.instructions.isEmpty = false)
    (deep : b.instructions.maxStackWithin n b.handlerEntries w.target.returnsValue = some m) :
    w.balanced b = .ok { b with maxStack := UInt16.ofNat m } := by
  show Except.mapError _ (b.instructions.maxStack _ _ >>= _) = _
  rw [InstructionList.maxStack_of_within inhabited n deep]
  rfl

end Weaving
end HookWeave

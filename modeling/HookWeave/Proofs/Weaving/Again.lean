import HookWeave.Proofs.Code.Arrivals
import HookWeave.Proofs.Image.Writable
import HookWeave.Proofs.Weaving.Commuting
import HookWeave.Proofs.Weaving.Depths
import HookWeave.Proofs.Weaving.Typing

/-!
# Hooks woven into woven targets

To a hook that is checked, a target into which others were woven looks like the target as it was
(`MethodBody.Resembles`): checked weaves keep this (`Weaving.resembles_of_weave`), for what they put in front
of the target leaves nothing on the stack, and what they put behind it leaves what the target left. So a
weave into the one body comes to the same as a weave into the other (`Weaving.weave_again`), unless there is
no room for one more local.
-/

namespace HookWeave

/-- The request describes its hook as the hook's signature does. -/
structure PatchRequest.Describes (r : PatchRequest) : Prop where
  params : r.hook.sig.params = r.hookParams.map (·.type)
  hasThis : r.hook.sig.hasThis = !r.hookIsStatic

variable {returnsValue : Bool} {exit : Option InstrId} {code rest : List (OpCode × Operand)}
  {c : OpCode × Operand} {d : Nat}

/-- The body holds instructions, the stack balances in it, and no depth is too great. -/
structure MethodBody.Balances (returnsValue : Bool) (b : MethodBody) : Prop where
  inhabited : b.instructions.isEmpty = false
  balance : b.instructions.PathsBalance {e | e ∈ b.handlerEntries} returnsValue
  bounded : ∀ d, b.instructions.Occurs {e | e ∈ b.handlerEntries} returnsValue d → d ≤ 65535

/-- To a hook that is checked the second body looks like the first: it ends with a return if the first one
does, paths arrive at its last instruction with the same depths, and it has no fewer locals. -/
structure MethodBody.Resembles (returnsValue : Bool) (b c : MethodBody) : Prop where
  balances : b.Balances returnsValue
  balances' : c.Balances returnsValue
  locals : b.locals.length ≤ c.locals.length
  ends : (b.instructions.last?.filter (·.op = .ret)).isSome
    = (c.instructions.last?.filter (·.op = .ret)).isSome
  final : ∀ d, b.instructions.Arrives {e | e ∈ b.handlerEntries} returnsValue (b.instructions.size - 1) d
    ↔ c.instructions.Arrives {e | e ∈ c.handlerEntries} returnsValue (c.instructions.size - 1) d

/-! ## Depths in woven code -/

/-- An instruction that pushes a value leads to what is led to with one more on the stack. -/
lemma Guides.push (plain : Plain c)
    (takes : (Instruction.ofCode ⟨0⟩ c).stackEffect returnsValue = .ok ⟨0, 1⟩)
    (h : Guides returnsValue exit code (d + 1)) : Guides returnsValue exit (c :: code) d :=
  .pass ⟨⟨_, takes, Nat.zero_le _, rfl⟩, plain.targets, by rw [plain.flow]; rfl⟩ h

namespace Weaving

variable {w : Weaving} {slot : Option UInt16} {first : InstrId} {loads : Code}

/-- The loads push a value for each parameter. -/
lemma guides_loads {position : Nat} {params : List Parameter}
    (loaded : w.loads slot position params = .ok loads)
    (h : Guides returnsValue exit rest (d + params.length)) :
    Guides returnsValue exit (loads ++ rest) d :=
  push_loads (P := fun code d => Guides returnsValue exit code d) loaded
    (fun _ _ _ plain takes onward => .push plain (takes returnsValue) onward) h

/-- The code that prepares the local for the result leaves the stack as it is. -/
lemma guides_preparation (h : Guides returnsValue exit rest d) :
    Guides returnsValue exit (w.preparation slot ++ rest) d := by
  cases slot with
  | none => exact h
  | some slot =>
    show Guides returnsValue exit (w.makeResult slot ++ rest) d
    by_cases value : w.target.ret.isByRef = false
    · rw [makeResult_value value]
      exact h
    · rw [Bool.not_eq_false] at value
      obtain ⟨element, ofType⟩ := eq_byRef_of_isByRef value
      rw [makeResult_byRef ofType]
      have stored : Guides returnsValue exit (ShortForm.storeLocal slot :: rest) (d + 1) := by
        have plain := ShortForm.plain_storeLocal slot
        refine .pass ⟨⟨_, ShortForm.stackEffect_storeLocal slot returnsValue ⟨0⟩, Nat.le_add_left _ _, rfl⟩,
          plain.targets, ?_⟩ h
        rw [plain.flow]
        rfl
      have addressed : Guides returnsValue exit
          ((.ldelema, .type element) :: ShortForm.storeLocal slot :: rest) (d + 2) :=
        .pass ⟨⟨⟨2, 1⟩, rfl, Nat.le_add_left _ _, rfl⟩, rfl, rfl⟩ stored
      exact .push ⟨rfl, rfl⟩ rfl (.pass ⟨⟨⟨1, 1⟩, rfl, Nat.le_add_left _ _, rfl⟩, rfl, rfl⟩
        (.push ⟨rfl, rfl⟩ rfl addressed))

/-- A hook that fits takes what is loaded for it. -/
lemma argCount_of_check (checked : w.check = .ok ()) (describes : w.request.Describes) :
    w.request.hook.sig.argCount = w.request.hookParams.length := by
  obtain ⟨static, _⟩ := of_check_eq_ok checked
  rw [MethodSig.argCount, describes.params, describes.hasThis, static, List.length_map]
  rfl

section

variable (checked : w.check = .ok ()) (describes : w.request.Describes)
include checked describes

/-- The call takes what was loaded, and leaves what the hook gives. -/
lemma guides_call (h : Guides returnsValue exit rest (d + (!w.request.hook.sig.ret.isVoid).toNat)) :
    Guides returnsValue exit (w.call :: rest) (d + w.request.hookParams.length) := by
  have takes := argCount_of_check checked describes
  refine .pass ⟨⟨⟨w.request.hook.sig.argCount, _⟩, rfl, ?_, ?_⟩, rfl, rfl⟩ h
  · rw [takes]
    exact Nat.le_add_left _ _
  · show d + _ - w.request.hook.sig.argCount + _ = _
    rw [takes, Nat.add_sub_cancel]

/-- What is put in front of the target leads to its first instruction, with an empty stack. -/
lemma guides_prologue (written : w.prologue slot first = .ok code) (has : slot.isSome = w.hasResult)
    (returns : w.usesResult = true → w.target.returnsValue = true) :
    Guides w.target.returnsValue (some first) code 0 := by
  obtain ⟨loads, loaded, rfl⟩ := prologue_eq_ok written
  rw [List.append_assoc]
  refine guides_preparation (guides_loads loaded (guides_call checked describes ?_))
  rw [Nat.zero_add]
  by_cases skips : w.maySkip = true
  · rw [dispatch_maySkip _ _ skips, isVoid_of_maySkip skips]
    refine .branch ?_
    rw [hasResult_of_maySkip skips returns] at has
    cases slot with
    | none => exact .ret (Nat.le_of_eq (congrArg Bool.toNat has.symm))
    | some slot =>
      exact .push (ShortForm.plain_loadLocal slot) (ShortForm.stackEffect_loadLocal slot _ ⟨0⟩)
        (.ret (Bool.toNat_le _))
  · unfold dispatch
    rw [if_neg skips]
    cases void : w.request.hook.sig.ret.isVoid with
    | true => exact .through
    | false => exact .pass ⟨⟨⟨1, 0⟩, rfl, Nat.le_refl _, rfl⟩, rfl, rfl⟩ .through

omit describes in
/-- Behind the call at the end of the target there is what was there before its result was dropped. -/
lemma returns_of_check (after : w.request.kind = .after) :
    (!w.request.hook.sig.ret.isVoid) = w.target.returnsValue := by
  obtain ⟨_, _, _, result⟩ := of_check_eq_ok checked
  rw [ret_of_checkReturn result after]
  rfl

/-- What is put behind the target runs to a return, from any depth that is enough for one. -/
lemma guides_epilogue (after : w.request.kind = .after) (written : w.epilogue = .ok code)
    (enough : w.target.returnsValue.toNat ≤ d) : Guides w.target.returnsValue none code d := by
  obtain ⟨loads, loaded, rfl⟩ := epilogue_eq_ok written
  have called : Guides w.target.returnsValue none (loads ++ [w.call, (.ret, .none)])
      (d - w.target.returnsValue.toNat) := by
    refine guides_loads loaded (guides_call checked describes (.ret ?_))
    rw [returns_of_check checked after]
    exact Nat.le_add_left _ _
  rw [List.append_assoc]
  cases returns : w.target.returnsValue with
  | false =>
    rw [returns] at called
    exact called
  | true =>
    rw [returns] at called enough
    exact .pass ⟨⟨⟨1, 0⟩, rfl, enough, rfl⟩, rfl, rfl⟩ called

/-- At the return behind the target there is as much on the stack as there was at the target's own. -/
lemma lifts_epilogue (after : w.request.kind = .after) (written : w.epilogue = .ok code) :
    ∃ front, code = front ++ [(.ret, .none)]
      ∧ ∀ d, w.target.returnsValue.toNat ≤ d → Lifts w.target.returnsValue front d d := by
  obtain ⟨loads, loaded, rfl⟩ := epilogue_eq_ok written
  refine ⟨w.drop ++ loads ++ [w.call], (List.append_assoc _ [w.call] [_]).symm, fun d enough => ?_⟩
  refine lifts_append (lifts_append lifts_drop (lifts_loads _ loaded)) ⟨⟨_, _⟩, rfl, ?_⟩
  show d = _ - w.request.hook.sig.argCount + (!w.request.hook.sig.ret.isVoid).toNat
  rw [argCount_of_check checked describes, Nat.add_sub_cancel, returns_of_check checked after,
    Nat.sub_add_cancel enough]

end

end Weaving

/-! ## Bodies that look alike -/

namespace MethodBody

variable {b b' b'' : MethodBody} {n : Nat}

lemma balances_of_maxStack (inhabited : b.instructions.isEmpty = false)
    (computed : b.instructions.maxStack b.handlerEntries returnsValue = .ok n) : b.Balances returnsValue := by
  obtain ⟨balance, ⟨_, greatest⟩, fits⟩ := (InstructionList.maxStack_eq_ok_balance inhabited).1 computed
  exact ⟨inhabited, balance, fun d occurs => (greatest occurs).trans fits⟩

lemma Balances.starts (h : b.Balances returnsValue) :
    ∃ first, b.instructions.first? = some first ∧ b.instructions.position? first.id = some 0 := by
  obtain ⟨first, others, items⟩ := List.exists_cons_of_ne_nil (List.isEmpty_eq_false_iff.1 h.inhabited)
  refine ⟨first, ?_, InstructionList.position?_getElem ?_⟩
  · unfold InstructionList.first?
    rw [items]
    rfl
  · rw [items]
    rfl

lemma Resembles.trans (h : b.Resembles returnsValue b') (h' : b'.Resembles returnsValue b'') :
    b.Resembles returnsValue b'' :=
  ⟨h.balances, h'.balances', h.locals.trans h'.locals, h.ends.trans h'.ends,
    fun d => (h.final d).trans (h'.final d)⟩

/-- A body that can be written is closed. -/
lemma Writable.closed (h : b.Writable) : b.Closed where
  targets i hi id named := by
    obtain ⟨ps, settled⟩ := h.code
    rw [← settled.placed] at hi
    obtain ⟨p, hp, rfl⟩ := List.mem_map.1 hi
    exact settled.reaching.contains hp named
  handlers clause mem := by
    obtain ⟨k, start, _⟩ := (h.clauses.2 clause mem).handler
    exact InstructionList.contains_iff_position?.2 ⟨k, start⟩

/-- What is the same code in other forms ends alike. -/
lemma isSome_last_of_sameCode (h : b.instructions.SameCode b'.instructions) :
    (b.instructions.last?.filter (·.op = .ret)).isSome
      = (b'.instructions.last?.filter (·.op = .ret)).isSome := by
  have each : ∀ i j, Instruction.SameBy (b.instructions.SamePosition b'.instructions) i j →
      (decide (i.op = .ret) = decide (j.op = .ret)) := by
    intro i j same
    rw [decide_eq_decide]
    obtain same | long := same.op
    · rw [same]
    · generalize i.op = op, j.op = op' at long
      cases op <;> cases long <;> decide
  unfold InstructionList.last?
  rw [List.getLast?_eq_getElem?, List.getLast?_eq_getElem?, ← List.Forall₂.length_eq h]
  cases there : b.instructions.items[b.instructions.items.length - 1]? with
  | some i =>
    obtain ⟨j, there', same⟩ := forall₂_getElem? h there
    rw [there', Option.filter_some, Option.filter_some, each i j same]
    split_ifs <;> rfl
  | none =>
    have none' : b'.instructions.items[b.instructions.items.length - 1]? = none := by
      rw [List.getElem?_eq_none_iff] at there ⊢
      rwa [← List.Forall₂.length_eq h]
    rw [none']

/-- A body looks like it did where it has the same instructions under other identities. -/
lemma Resembles.same (h : b.Resembles returnsValue b') (same : b'.Same b'') :
    b.Resembles returnsValue b'' := by
  have acts := same.code.acts
  obtain ⟨enters, enters'⟩ := enters_of_clauses (same.clauses.imp fun c d alike =>
    alike.imp fun _ _ ⟨_, there, there'⟩ => there.trans there'.symm)
  refine h.trans ⟨h.balances', ⟨?_, ?_, ?_⟩, ?_, ?_, ?_⟩
  · exact acts.isEmpty.trans h.balances'.inhabited
  · exact acts.balance enters' h.balances'.balance
  · exact fun d occurs => h.balances'.bounded d (acts.flip.occurs enters' occurs)
  · exact Nat.le_of_eq (congrArg List.length same.locals).symm
  · exact isSome_last_of_sameCode same.code
  · intro d
    have size : b''.instructions.size = b'.instructions.size := (List.Forall₂.length_eq acts).symm
    rw [size]
    exact ⟨acts.arrives enters, acts.flip.arrives enters'⟩

/-! ### The greatest depth -/

section

variable {l l' : InstructionList} {first first' : InstrId} {code code' : List (OpCode × Operand)} {d : Nat}

/-- What is too deep in a list that is balanced but for the code in front of it is seen in that code. -/
lemma Balances.occurs_fronted (h : b.Balances returnsValue) (fronted : b.instructions.Fronted l code)
    (guides : Guides returnsValue (some first) code 0) (start : b.instructions.position? first = some 0)
    (deep : 65535 < d) :
    l.Occurs {e | e ∈ b.handlerEntries} returnsValue d ↔ Sees returnsValue code 0 d := by
  rw [fronted.occurs_iff guides start h.balance]
  exact or_iff_left fun was => Nat.not_le_of_lt deep (h.bounded d was)

/-- The greatest depths ahead of which the same is done to the stack are known alike. -/
lemma Resembles.maxStack_fronted (h : b.Resembles returnsValue b') (fronted : b.instructions.Fronted l code)
    (fronted' : b'.instructions.Fronted l' code') (guides : Guides returnsValue (some first) code 0)
    (guides' : Guides returnsValue (some first') code' 0) (start : b.instructions.position? first = some 0)
    (start' : b'.instructions.position? first' = some 0) (same : SameEffects code code') :
    (∃ n n', l.maxStack b.handlerEntries returnsValue = .ok n
        ∧ l'.maxStack b'.handlerEntries returnsValue = .ok n')
      ∨ ∃ e, l.maxStack b.handlerEntries returnsValue = .error e
        ∧ l'.maxStack b'.handlerEntries returnsValue = .error e := by
  refine InstructionList.maxStack_cases (fronted.isEmpty_eq h.balances.inhabited)
    (fronted'.isEmpty_eq h.balances'.inhabited)
    (fronted.balance_of_old guides start h.balances.balance)
    (fronted'.balance_of_old guides' start' h.balances'.balance) fun d deep => ?_
  rw [h.balances.occurs_fronted fronted guides start deep,
    h.balances'.occurs_fronted fronted' guides' start' deep]
  exact ⟨same.sees, same.symm.sees⟩

end

section

variable {l l' : InstructionList} {pre pre' : List Instruction} {last last' : Instruction}
  {code : List (OpCode × Operand)} {entries entries' : List (InstrId × Nat)} {d : Nat}

/-- What is too deep in a list that is balanced but for the code at its end is seen in that code. -/
lemma Balances.occurs_ended (h : b.Balances returnsValue) (ended : b.instructions.Ended l pre last code)
    (isRet : last.op = .ret)
    (renamed : {e | e ∈ entries} = {e' | ∃ e ∈ {e | e ∈ b.handlerEntries},
      e' = (e.1.replace last.id ⟨b.instructions.nextId⟩, e.2)})
    (guides : ∀ d, returnsValue.toNat ≤ d → Guides returnsValue none code d) (deep : 65535 < d) :
    l.Occurs {e | e ∈ entries} returnsValue d ↔ ∃ d₀,
      b.instructions.Arrives {e | e ∈ b.handlerEntries} returnsValue (b.instructions.size - 1) d₀
        ∧ Sees returnsValue code d₀ d := by
  rw [ended.size, Nat.add_sub_cancel, ended.occurs_iff isRet renamed guides h.balance]
  exact or_iff_right fun was => Nat.not_le_of_lt deep (h.bounded d was.occurs)

/-- The greatest depths behind which the same is done to the stack are known alike. -/
lemma Resembles.maxStack_ended (h : b.Resembles returnsValue b')
    (ended : b.instructions.Ended l pre last code) (ended' : b'.instructions.Ended l' pre' last' code)
    (isRet : last.op = .ret) (isRet' : last'.op = .ret)
    (renamed : {e | e ∈ entries} = {e' | ∃ e ∈ {e | e ∈ b.handlerEntries},
      e' = (e.1.replace last.id ⟨b.instructions.nextId⟩, e.2)})
    (renamed' : {e | e ∈ entries'} = {e' | ∃ e ∈ {e | e ∈ b'.handlerEntries},
      e' = (e.1.replace last'.id ⟨b'.instructions.nextId⟩, e.2)})
    (guides : ∀ d, returnsValue.toNat ≤ d → Guides returnsValue none code d) :
    (∃ n n', l.maxStack entries returnsValue = .ok n ∧ l'.maxStack entries' returnsValue = .ok n')
      ∨ ∃ e, l.maxStack entries returnsValue = .error e ∧ l'.maxStack entries' returnsValue = .error e := by
  refine InstructionList.maxStack_cases ended.isEmpty_eq ended'.isEmpty_eq
    (ended.balance_of_old isRet renamed guides h.balances.balance)
    (ended'.balance_of_old isRet' renamed' guides h.balances'.balance) fun d deep => ?_
  rw [h.balances.occurs_ended ended isRet renamed guides deep,
    h.balances'.occurs_ended ended' isRet' renamed' guides deep]
  exact exists_congr fun d₀ => and_congr_left fun _ => h.final d₀

end

end MethodBody

namespace Weaving

variable {w : Weaving} {b b' : MethodBody}

/-! ## Weaves keep the look of a body -/

/-- Handlers are entered at the same depths when the boundaries of clauses move. -/
lemma handlerEntries_retarget {old new : InstrId}
    (clauses : b'.clauses = b.clauses.map (·.retarget old (some new))) :
    {e | e ∈ b'.handlerEntries}
      = {e' | ∃ e ∈ {e | e ∈ b.handlerEntries}, e' = (e.1.replace old new, e.2)} := by
  ext e'
  show e' ∈ b'.clauses.map _ ↔ ∃ e, e ∈ b.clauses.map _ ∧ _
  rw [clauses, List.map_map, List.mem_map]
  constructor
  · rintro ⟨c, mem, rfl⟩
    exact ⟨_, List.mem_map_of_mem mem, rfl⟩
  · rintro ⟨e, mem, rfl⟩
    obtain ⟨c, listed, rfl⟩ := List.mem_map.1 mem
    exact ⟨c, listed, rfl⟩

section

variable (checked : w.check = .ok ()) (describes : w.request.Describes) (there : w.target.body = some b)
  (closed : b.Closed)
include checked describes there closed

lemma resembles_before (h : w.bodyBefore = .ok b') : b.Resembles w.target.returnsValue b' := by
  obtain ⟨body, first, slot, code, there', head, written, items, clauses, returns, grown, m, computed, _⟩ :=
    of_bodyBefore_eq_ok h
  cases there.symm.trans there'
  have fronted : b.instructions.Fronted b'.instructions code := ⟨items⟩
  have has : slot.isSome = w.hasResult := by
    obtain ⟨has, rfl, _⟩ | ⟨has, _, rfl, _⟩ := grown
    · exact has.symm
    · exact has.symm
  have guides := guides_prologue checked describes written has returns
  have start : b.instructions.position? first.id = some 0 :=
    InstructionList.position?_of_first? head
  have nonempty : b.instructions.items ≠ [] := List.ne_nil_of_mem (List.mem_of_mem_head? head)
  have inhabited : b.instructions.isEmpty = false := List.isEmpty_eq_false_iff.2 nonempty
  have entries : b'.handlerEntries = b.handlerEntries := congrArg (List.map _) clauses
  have after := MethodBody.balances_of_maxStack (fronted.isEmpty_eq inhabited) computed
  have balance : b.instructions.PathsBalance {e | e ∈ b.handlerEntries} w.target.returnsValue := by
    refine fronted.balance_old guides start (entries ▸ after.balance) (fun e he => ?_) closed.targets
    obtain ⟨clause, mem, rfl⟩ := List.mem_map.1 he
    exact closed.handlers clause mem
  refine ⟨⟨inhabited, balance, fun d occurs => ?_⟩, after, ?_, ?_, fun d => ?_⟩
  · refine after.bounded d ?_
    rw [entries]
    exact fronted.occurs_old guides start occurs
  · obtain ⟨_, _, same⟩ | ⟨_, _, _, more⟩ := grown
    · rw [same]
    · rw [more, List.length_append]
      exact Nat.le_add_right _ _
  · unfold InstructionList.last?
    rw [items, List.getLast?_append_of_ne_nil _ nonempty]
  · have last : b'.instructions.size - 1 = code.length + (b.instructions.size - 1) := by
      have positive : 0 < b.instructions.size := List.length_pos_iff.2 nonempty
      rw [fronted.size']
      omega
    rw [last, entries]
    refine ⟨fronted.arrives_old guides start, fun arrived => ?_⟩
    obtain ⟨c, at', _⟩ | ⟨p, same, was⟩ := fronted.arrives_cases guides start balance arrived
    · exact absurd (List.getElem?_eq_some_iff.1 at').1 (Nat.not_lt.2 (Nat.le_add_right _ _))
    · cases Nat.add_left_cancel same
      exact was

lemma resembles_after (after : w.request.kind = .after) (h : w.bodyAfter = .ok b') :
    b.Resembles w.target.returnsValue b' := by
  obtain ⟨body, pre, last, code, there', was, isRet, written, items, clauses, locals, m, computed, _⟩ :=
    of_bodyAfter_eq_ok h
  cases there.symm.trans there'
  have guides (d : Nat) (enough : w.target.returnsValue.toNat ≤ d) :
      Guides w.target.returnsValue none code d :=
    guides_epilogue checked describes after written enough
  obtain ⟨front, split, lifts⟩ := lifts_epilogue checked describes after written
  have ended : b.instructions.Ended b'.instructions pre last code :=
    ⟨was, items, by rw [split]; exact List.concat_ne_nil _ _⟩
  have renamed := handlerEntries_retarget clauses
  have nonempty : b.instructions.isEmpty = false := by
    refine List.isEmpty_eq_false_iff.2 ?_
    rw [was]
    exact List.concat_ne_nil _ _
  have balances := MethodBody.balances_of_maxStack ended.isEmpty_eq computed
  have balance : b.instructions.PathsBalance {e | e ∈ b.handlerEntries} w.target.returnsValue := by
    refine ended.balance_old isRet renamed balances.balance (fun e he => ?_) closed.targets fun returns => ?_
    · obtain ⟨clause, mem, rfl⟩ := List.mem_map.1 he
      exact closed.handlers clause mem
    · obtain ⟨loads, _, rfl⟩ := epilogue_eq_ok written
      rw [returns]
      rfl
  refine ⟨⟨nonempty, balance, fun d occurs => ?_⟩, balances, ?_, ?_, fun d => ?_⟩
  · obtain ⟨d', le, occurs'⟩ := ended.occurs_old isRet renamed occurs
    exact le.trans (balances.bounded d' occurs')
  · rw [locals]
  · unfold InstructionList.last?
    rw [was, items, split, InstructionList.number_append, ← List.append_assoc, List.getLast?_concat]
    show _ = (Option.filter _ (_ ++ [_]).getLast?).isSome
    rw [List.getLast?_concat, Option.filter_some, if_pos (decide_eq_true isRet)]
    rfl
  · have last : b'.instructions.size - 1 = pre.length + front.length := by
      rw [ended.size', split, List.length_append]
      rfl
    rw [last, ended.size, Nat.add_sub_cancel]
    exact (ended.arrives_final isRet renamed guides split lifts balance).symm

end

/-- Only a target with a body is woven into. -/
lemma exists_body_of_weave {verify : Bool} {target' : MethodDeclaration} (h : w.weave verify = .ok target') :
    ∃ b, w.target.body = some b := by
  obtain ⟨b', _, before, after⟩ := body_of_weave_eq_ok h
  cases kind : w.request.kind with
  | before =>
    obtain ⟨b, _, _, _, there, _⟩ := of_bodyBefore_eq_ok (before kind)
    exact ⟨b, there⟩
  | after =>
    obtain ⟨b, _, _, _, there, _⟩ := of_bodyAfter_eq_ok (after kind)
    exact ⟨b, there⟩

/-- Checked weaves keep the look of a body. -/
theorem resembles_of_weave {target' : MethodDeclaration} (h : w.weave true = .ok target')
    (describes : w.request.Describes) (there : w.target.body = some b) (closed : b.Closed) :
    ∃ b', target' = { w.target with body := some b' } ∧ b.Resembles w.target.returnsValue b' := by
  obtain ⟨checked, b', rfl, before, after⟩ := of_weave_eq_ok h
  refine ⟨b', rfl, ?_⟩
  cases kind : w.request.kind with
  | before => exact resembles_before checked describes there closed (before kind)
  | after => exact resembles_after checked describes there closed kind (after kind)

/-! ## Weaves into bodies that look alike -/

section

variable {slot slot' : Option UInt16} {first first' : InstrId} {excused : Fault → Prop}

/-- Loads from other slots have the same effects. -/
lemma loads_foretells {position : Nat} {params : List Parameter} (slots : slot.isSome = slot'.isSome) :
    Foretells excused SameEffects (w.loads slot position params) (w.loads slot' position params) := by
  induction params generalizing position with
  | nil => exact .ok .nil
  | cons p params ih =>
    have argument : Foretells excused SameEffects
        (w.argumentSlot position >>= fun s => w.loads slot (position + 1) params >>= fun code =>
          .ok (ShortForm.loadArg s :: code))
        (w.argumentSlot position >>= fun s => w.loads slot' (position + 1) params >>= fun code =>
          .ok (ShortForm.loadArg s :: code)) := by
      refine (Foretells.self _).bind fun s s' both => ?_
      obtain ⟨rfl, _⟩ := both
      exact ih.bind fun code code' same => .ok (.cons (fun _ => rfl) same)
    match slot, slot' with
    | none, none => exact argument
    | some s, some s' =>
      unfold loads
      cases takes : w.takesResult p with
      | true =>
        have effects (returnsValue : Bool) :=
          (w.stackEffect_loadResult s' returnsValue).trans (w.stackEffect_loadResult s returnsValue).symm
        exact ih.bind fun code code' same => .ok (.cons effects same)
      | false => exact argument

/-- Prologues with other slots, to other instructions, have the same effects. -/
lemma prologue_foretells (slots : slot.isSome = slot'.isSome) :
    Foretells excused SameEffects (w.prologue slot first) (w.prologue slot' first') := by
  have preparation : SameEffects (w.preparation slot) (w.preparation slot') := by
    match slot, slot' with
    | none, none => exact .nil
    | some s, some s' =>
      show SameEffects (w.makeResult s) (w.makeResult s')
      by_cases value : w.target.ret.isByRef = false
      · rw [makeResult_value value, makeResult_value value]
        exact .nil
      · rw [Bool.not_eq_false] at value
        obtain ⟨element, ofType⟩ := eq_byRef_of_isByRef value
        rw [makeResult_byRef ofType, makeResult_byRef ofType]
        refine .cons (fun _ => rfl) (.cons (fun _ => rfl) (.cons (fun _ => rfl) (.cons (fun _ => rfl)
          (.cons (fun _ => ?_) .nil))))
        rw [ShortForm.stackEffect_storeLocal, ShortForm.stackEffect_storeLocal]
  have dispatch : SameEffects (w.dispatch slot first) (w.dispatch slot' first') := by
    unfold dispatch
    split_ifs
    · refine .cons (fun _ => rfl) (List.rel_append ?_ (.cons (fun _ => rfl) .nil))
      match slot, slot' with
      | none, none => exact .nil
      | some s, some s' =>
        refine .cons (fun _ => ?_) .nil
        rw [ShortForm.stackEffect_loadLocal, ShortForm.stackEffect_loadLocal]
    · exact .nil
    · exact .cons (fun _ => rfl) .nil
  refine (loads_foretells slots).bind fun loads loads' same => .ok ?_
  exact List.rel_append (List.rel_append preparation same) (.cons (fun _ => rfl) dispatch)

/-- The local for the result is added as it is to a body with more locals, if there is room for it. -/
lemma withResult_foretells {c : MethodBody} (locals : b.locals.length ≤ c.locals.length) :
    Foretells (· = .malformed .tooManyLocals) (fun x y => x.1.isSome = w.hasResult ∧ y.1.isSome = w.hasResult
        ∧ (w.usesResult = true → w.target.returnsValue = true)
        ∧ x.2.instructions = b.instructions ∧ x.2.clauses = b.clauses
        ∧ y.2.instructions = c.instructions ∧ y.2.clauses = c.clauses) (w.withResult b) (w.withResult c) := by
  unfold withResult
  cases void : w.usesResult && !w.target.returnsValue with
  | true => exact .error
  | false =>
    have returns (uses : w.usesResult = true) : w.target.returnsValue = true := by
      rwa [uses, Bool.true_and, Bool.not_eq_false'] at void
    show Foretells _ _ (if w.hasResult then _ else _) (if w.hasResult then _ else _)
    cases has : w.hasResult with
    | false => exact .ok ⟨rfl, rfl, returns, rfl, rfl, rfl, rfl⟩
    | true =>
      by_cases room : c.locals.length < MethodBody.maxLocals
      · show Foretells _ _ (b.addLocal _ >>= _) (c.addLocal _ >>= _)
        rw [MethodBody.addLocal_eq_ok.2 ⟨locals.trans_lt room, rfl, rfl⟩,
          MethodBody.addLocal_eq_ok.2 ⟨room, rfl, rfl⟩]
        exact .ok ⟨rfl, rfl, returns, rfl, rfl, rfl, rfl⟩
      · have full : c.addLocal w.target.ret = .error (.malformed .tooManyLocals) := if_neg room
        show Foretells _ _ _ (c.addLocal _ >>= _)
        rw [full]
        exact .excused rfl

/-- Where the greatest depths are known alike, the stacks balance or not for the same reason. -/
lemma balanced_foretells {x y : MethodBody} {v : Bool} (returns : w.target.returnsValue = v)
    (outcome : (∃ n n', x.instructions.maxStack x.handlerEntries v = .ok n
        ∧ y.instructions.maxStack y.handlerEntries v = .ok n')
      ∨ ∃ e, x.instructions.maxStack x.handlerEntries v = .error e
        ∧ y.instructions.maxStack y.handlerEntries v = .error e) :
    Foretells excused (fun _ _ => True) (w.balanced x) (w.balanced y) := by
  unfold balanced MethodBody.updateMaxStack
  rw [returns]
  obtain ⟨n, n', computed, computed'⟩ | ⟨e, failed, failed'⟩ := outcome
  · rw [computed, computed']
    exact .ok trivial
  · rw [failed, failed']
    exact .error

end

/-- Code that names no instruction can take the place of the last one. -/
lemma replaceLast_isOk {pre : List Instruction} {last : Instruction} {code : Code}
    (split : b.instructions.items = pre ++ [last]) (inhabited : code ≠ [])
    (plain : ∀ c ∈ code, c.2.targets = []) :
    ∃ l, MethodBody.apply { b with instructions := b.instructions.pushAll code }
        (MethodBody.removeInstruction last.id)
          = .ok { b with
            instructions := l
            clauses := b.clauses.map (·.retarget last.id (some ⟨b.instructions.nextId⟩)) }
      ∧ b.instructions.Ended l pre last code := by
  obtain ⟨c, others, rfl⟩ := List.exists_cons_of_ne_nil inhabited
  have behind : (b.instructions.pushAll (c :: others)).successor? last.id = some ⟨b.instructions.nextId⟩ :=
    successor?_pushAll split
  obtain ⟨b', edited⟩ := MethodBody.removeInstruction_isOk
    (b := { b with instructions := b.instructions.pushAll (c :: others) }) behind
  obtain ⟨_, done⟩ := MethodBody.apply_eq_ok.1 edited
  cases MethodBody.of_removeInstruction_eq_ok done behind
  exact ⟨_, edited, ⟨split, items_replaceLast split plain, inhabited⟩⟩

/-- The same hook for the target with another body. -/
def inside (w : Weaving) (b : MethodBody) : Weaving :=
  w.onto { w.target with body := some b }

lemma check_inside : (w.inside b).check = w.check := by
  have parameters (position : Nat) (params : List Parameter) :
      (w.inside b).checkParameters position params = w.checkParameters position params := by
    induction params generalizing position with
    | nil => rfl
    | cons p params ih =>
      unfold checkParameters
      rw [ih, ih]
      rfl
  unfold check
  rw [parameters]
  rfl

section

variable {c : MethodBody} (checked : w.check = .ok ()) (describes : w.request.Describes)
  (there : w.target.body = some b) (alike : b.Resembles w.target.returnsValue c)
include checked describes there alike

lemma bodyBefore_foretells : Foretells (· = .malformed .tooManyLocals) (fun _ _ => True) w.bodyBefore
    (w.inside c).bodyBefore := by
  obtain ⟨first, head, start⟩ := alike.balances.starts
  obtain ⟨first', head', start'⟩ := alike.balances'.starts
  refine Foretells.bind (Q := fun x y => b = x ∧ c = y) ?_ fun x y both => ?_
  · rw [body_eq_ok.2 there]
    exact .ok ⟨rfl, rfl⟩
  obtain ⟨rfl, rfl⟩ := both
  rw [head, head']
  refine (withResult_foretells alike.locals).bind fun extended extended' both => ?_
  obtain ⟨slot, x⟩ := extended
  obtain ⟨slot', y⟩ := extended'
  obtain ⟨has, has', returns, instructions, clauses, instructions', clauses'⟩ := both
  have written : Foretells (· = .malformed .tooManyLocals)
      (fun code code' => SameEffects code code' ∧ w.prologue slot first.id = .ok code
        ∧ w.prologue slot' first'.id = .ok code')
      (w.prologue slot first.id) ((w.inside c).prologue slot' first'.id) := by
    rw [show (w.inside c).prologue slot' first'.id = w.prologue slot' first'.id from prologue_onto]
    exact (prologue_foretells (has.trans has'.symm)).imp fun _ _ written written' same =>
      ⟨same, written, written'⟩
  refine written.bind fun code code' both => ?_
  obtain ⟨same, written, written'⟩ := both
  obtain ⟨l, edited, fronted⟩ := MethodBody.insertAll_isOk (b := x) (instructions ▸ head)
    fun _ hc _ named => eq_of_mem_targets_prologue written hc named
  obtain ⟨l', edited', fronted'⟩ := MethodBody.insertAll_isOk (b := y) (instructions' ▸ head')
    fun _ hc _ named => eq_of_mem_targets_prologue written' hc named
  show Foretells _ _ (x.apply _ >>= w.balanced) (y.apply _ >>= w.balanced)
  rw [edited, edited']
  refine balanced_foretells rfl ?_
  have outcome := alike.maxStack_fronted (instructions ▸ fronted) (instructions' ▸ fronted')
    (guides_prologue checked describes written has returns)
    (guides_prologue checked describes written' has' returns) start start' same
  rw [show MethodBody.handlerEntries { x with instructions := l } = b.handlerEntries from
      congrArg (List.map _) clauses,
    show MethodBody.handlerEntries { y with instructions := l' } = c.handlerEntries from
      congrArg (List.map _) clauses']
  exact outcome

lemma bodyAfter_foretells (after : w.request.kind = .after) :
    Foretells (· = .malformed .tooManyLocals) (fun _ _ => True) w.bodyAfter
      (w.inside c).bodyAfter := by
  refine Foretells.bind (Q := fun x y => b = x ∧ c = y) ?_ fun x y both => ?_
  · rw [body_eq_ok.2 there]
    exact .ok ⟨rfl, rfl⟩
  obtain ⟨rfl, rfl⟩ := both
  cases final : b.instructions.last?.filter (·.op = .ret) with
  | none =>
    cases final' : c.instructions.last?.filter (·.op = .ret) with
    | none => exact .error
    | some => exact absurd alike.ends (by rw [final, final']; exact Bool.false_ne_true)
  | some last =>
    cases final' : c.instructions.last?.filter (·.op = .ret) with
    | none => exact absurd alike.ends (by rw [final, final']; exact Bool.false_ne_true.symm)
    | some last' =>
      have written : Foretells (· = .malformed .tooManyLocals)
          (fun code code' => code = code' ∧ w.epilogue = .ok code) w.epilogue (w.inside c).epilogue := by
        rw [show (w.inside c).epilogue = w.epilogue from epilogue_onto]
        exact .self _
      refine written.bind fun code _ both => ?_
      obtain ⟨rfl, written⟩ := both
      obtain ⟨found, isRet⟩ := Option.filter_eq_some_iff.1 final
      obtain ⟨found', isRet'⟩ := Option.filter_eq_some_iff.1 final'
      obtain ⟨pre, split⟩ := List.getLast?_eq_some_iff.1 found
      obtain ⟨pre', split'⟩ := List.getLast?_eq_some_iff.1 found'
      have inhabited : code ≠ [] := by
        obtain ⟨front, rfl, _⟩ := lifts_epilogue checked describes after written
        exact List.concat_ne_nil _ _
      obtain ⟨l, edited, ended⟩ := replaceLast_isOk split inhabited (targets_epilogue written)
      obtain ⟨l', edited', ended'⟩ := replaceLast_isOk split' inhabited (targets_epilogue written)
      show Foretells _ _ (MethodBody.apply _ _ >>= w.balanced) (MethodBody.apply _ _ >>= w.balanced)
      rw [edited, edited']
      exact balanced_foretells rfl (alike.maxStack_ended ended ended' (of_decide_eq_true isRet)
        (of_decide_eq_true isRet') (handlerEntries_retarget rfl) (handlerEntries_retarget rfl)
        fun d enough => guides_epilogue checked describes after written enough)

end

/-- A checked hook that is woven into a body, and into one that looks like it to hooks, comes to the same,
unless there is no room for one more local in the second. -/
theorem weave_again {c : MethodBody} (describes : w.request.Describes) (there : w.target.body = some b)
    (alike : b.Resembles w.target.returnsValue c) :
    Foretells (· = .malformed .tooManyLocals) (fun _ _ => True) (w.weave true)
      ((w.inside c).weave true) := by
  unfold weave
  rw [check_inside]
  refine (Foretells.self _).bind fun _ _ both => ?_
  obtain ⟨_, checked⟩ := both
  cases kind : w.request.kind with
  | before =>
    have inside : (w.inside c).request.kind = .before := kind
    rw [inside]
    exact (bodyBefore_foretells checked describes there alike).bind fun _ _ _ => .ok trivial
  | after =>
    have inside : (w.inside c).request.kind = .after := kind
    rw [inside]
    exact (bodyAfter_foretells checked describes there alike kind).bind fun _ _ _ => .ok trivial

end Weaving
end HookWeave

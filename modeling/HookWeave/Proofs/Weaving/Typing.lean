import HookWeave.Proofs.Weaving.Before

/-!
# Types of what hooks are given

The call of a hook that was checked is well typed (`weave_checked_typed`): in front of it stands one load
for each parameter, and what is loaded has the parameter's type. The check and the loads go through the
parameters on their own, each counting the arguments that it has come to; `supplies_loads` is the induction
that keeps the two counts together.
-/

namespace HookWeave

/-! ## What instructions load -/

/-- The types as which a receiver of a type can be taken: an object, itself, or its address. -/
inductive TypeRef.TakenAs (owner : TypeRef) : TypeSig → Prop
  | object : TakenAs owner (.prim .object)
  | itself {type : TypeSig} : type.typeRef? = some owner → TakenAs owner type
  | address {type : TypeSig} : type.typeRef? = some owner → TakenAs owner (.byRef type)

/-- A method is passed a value of a type in an argument slot. The receiver comes first, if there is
one. -/
inductive MethodDeclaration.Passed (m : MethodDeclaration) (owner : TypeRef) : Nat → TypeSig → Prop
  | receiver {type : TypeSig} :
    m.isStatic = false →
    owner.TakenAs type →
    Passed m owner 0 type
  | ofInstance {n : Nat} {p : Parameter} :
    m.isStatic = false →
    m.params[n]? = some p →
    Passed m owner (n + 1) p.type
  | ofStatic {n : Nat} {p : Parameter} :
    m.isStatic = true →
    m.params[n]? = some p →
    Passed m owner n p.type

/-- An instruction of a method with those locals puts a value of a type on the stack: what is in an
argument or in a local, or the address of a local. -/
inductive Instruction.Loads (m : MethodDeclaration) (owner : TypeRef) (locals : List TypeSig)
    (i : Instruction) : TypeSig → Prop
  | argument {slot : UInt16} {type : TypeSig} :
    i.routine? = some .load →
    i.argSlot? = some slot →
    m.Passed owner slot.toNat type →
    Loads m owner locals i type
  | local {slot : UInt16} {type : TypeSig} :
    i.routine? = some .load →
    i.localSlot? = some slot →
    locals[slot.toNat]? = some type →
    Loads m owner locals i type
  | address {slot : UInt16} {type : TypeSig} :
    i.routine? = some .address →
    i.localSlot? = some slot →
    locals[slot.toNat]? = some type →
    Loads m owner locals i (.byRef type)

/-- The instruction loads something from a slot, or the address of a slot. -/
def Instruction.IsLoad (i : Instruction) : Prop :=
  i.routine? = some .load ∨ i.routine? = some .address

namespace ShortForm

variable (slot : UInt16) (id : InstrId)

lemma argSlot?_loadArg : (Instruction.ofCode id (loadArg slot)).argSlot? = some slot := by
  unfold loadArg
  split_ifs <;> subst_vars <;> rfl

lemma localSlot?_loadLocal : (Instruction.ofCode id (loadLocal slot)).localSlot? = some slot := by
  unfold loadLocal
  split_ifs <;> subst_vars <;> rfl

lemma localSlot?_loadLocalAddress :
    (Instruction.ofCode id (loadLocalAddress slot)).localSlot? = some slot := by
  unfold loadLocalAddress
  split_ifs <;> rfl

lemma argSlot?_loadLocal : (Instruction.ofCode id (loadLocal slot)).argSlot? = none := by
  unfold loadLocal
  split_ifs <;> rfl

lemma argSlot?_storeLocal : (Instruction.ofCode id (storeLocal slot)).argSlot? = none := by
  unfold storeLocal
  split_ifs <;> rfl

lemma argSlot?_loadLocalAddress :
    (Instruction.ofCode id (loadLocalAddress slot)).argSlot? = none := by
  unfold loadLocalAddress
  split_ifs <;> rfl

end ShortForm

namespace InstructionList

lemma number_append (n : Nat) (code code' : List (OpCode × Operand)) :
    number n (code ++ code') = number n code ++ number (n + code.length) code' := by
  induction code generalizing n with
  | nil => rfl
  | cons c code ih =>
    show _ :: number (n + 1) (code ++ code') = _ :: _
    rw [ih, List.length_cons, Nat.add_assoc, Nat.add_comm 1]
    rfl

lemma exists_of_mem_number {n : Nat} {code : List (OpCode × Operand)} {i : Instruction}
    (h : i ∈ number n code) : ∃ c ∈ code, ∃ id, i = .ofCode id c := by
  obtain ⟨k, at'⟩ := List.mem_iff_getElem?.1 h
  rw [getElem?_number, Option.map_eq_some_iff] at at'
  obtain ⟨c, found, rfl⟩ := at'
  exact ⟨c, List.mem_of_getElem? found, _, rfl⟩

lemma getElem?_number_of_eq_some {n k : Nat} {code : List (OpCode × Operand)} {c : OpCode × Operand}
    (found : code[k]? = some c) : (number n code)[k]? = some (.ofCode ⟨n + k⟩ c) := by
  rw [getElem?_number, found]
  rfl

/-- Where code was added to older instructions, what is new is of that code. -/
lemma mem_number_of_new {n : Nat} {code : List (OpCode × Operand)} {old old' : List Instruction}
    {i : Instruction} (older : ∀ i ∈ old ++ old', i.id.val < n) (hi : i ∈ old ++ number n code ++ old')
    (new : n ≤ i.id.val) : i ∈ number n code := by
  rw [List.append_assoc] at hi
  obtain mem | mem | mem := (List.mem_append.1 hi).imp_right List.mem_append.1
  · exact absurd new (Nat.not_le_of_lt (older i (List.mem_append_left _ mem)))
  · exact mem
  · exact absurd new (Nat.not_le_of_lt (older i (List.mem_append_right _ mem)))

end InstructionList

namespace Weaving

variable {w : Weaving} {target' : MethodDeclaration} {b b' : MethodBody} {id : InstrId}
  {p : Parameter} {params : List Parameter} {code loads : Code} {slot : Option UInt16}
  {locals : List TypeSig} {position k n : Nat} {type : TypeSig} {i : Instruction}
  {c : OpCode × Operand}

instance : DecidablePred w.givesResult := fun _ => inferInstanceAs (Decidable (_ ∧ _))

/-- The number of parameters before one that are given arguments. -/
def argumentsBefore (w : Weaving) (params : List Parameter) (k : Nat) : Nat :=
  (params.take k).countP fun p => ¬ w.givesResult p

lemma argumentsBefore_of_gives (gives : w.givesResult p) :
    w.argumentsBefore (p :: params) (k + 1) = w.argumentsBefore params k := by
  unfold argumentsBefore
  rw [List.take_succ_cons, List.countP_cons_of_neg (by simpa using gives)]

lemma argumentsBefore_of_not_gives (gives : ¬ w.givesResult p) :
    w.argumentsBefore (p :: params) (k + 1) = w.argumentsBefore params k + 1 := by
  unfold argumentsBefore
  rw [List.take_succ_cons, List.countP_cons_of_pos (by simpa using gives)]

/-- An instruction supplies a parameter of the hook: it loads what has the parameter's type, from the
local for the result where the parameter takes that, and else from the argument slot of the position. -/
structure Supplies (w : Weaving) (locals : List TypeSig) (result position : Nat) (p : Parameter)
    (i : Instruction) : Prop where
  typed : i.Loads w.target w.owner locals p.type
  result : w.givesResult p → p.type = w.resultType ∧ i.argSlot? = none
    ∧ ∃ slot, i.localSlot? = some slot ∧ slot.toNat = result
  argument : ¬ w.givesResult p → w.target.Passed w.owner position p.type
    ∧ position < w.target.argCount ∧ ∃ slot, i.argSlot? = some slot ∧ slot.toNat = position

/-! ## Types that fit -/

lemma takenAs_of_fitsReceiver (h : w.fitsReceiver type = true) : w.owner.TakenAs type := by
  unfold fitsReceiver at h
  rw [Bool.or_eq_true, decide_eq_true_eq, decide_eq_true_eq] at h
  cases h with
  | inl object =>
    cases object
    exact .object
  | inr named =>
    cases type with
    | byRef target => exact .address named
    | _ => exact .itself named

/-- An argument that fits is passed in its slot with the type that it fits. -/
lemma passed_of_fitsArgument (h : w.fitsArgument position type = true) :
    w.target.Passed w.owner position type := by
  unfold fitsArgument at h
  split_ifs at h with static
  · rw [List.getElem?_map, decide_eq_true_eq, Option.map_eq_some_iff] at h
    obtain ⟨p, at', rfl⟩ := h
    exact .ofStatic static at'
  · have receives : w.target.isStatic = false := Bool.eq_false_iff.2 static
    cases position with
    | zero => exact .receiver receives (takenAs_of_fitsReceiver h)
    | succ n =>
      have h : decide ((w.target.params.map (·.type))[n]? = some type) = true := h
      rw [List.getElem?_map, decide_eq_true_eq, Option.map_eq_some_iff] at h
      obtain ⟨p, at', rfl⟩ := h
      exact .ofInstance receives at'

lemma type_of_checkResult (h : w.checkResult p = .ok ()) : p.type = w.resultType := by
  unfold checkResult at h
  split_ifs at h with void differs
  · cases h
  · cases h
  · exact not_ne_iff.1 differs

lemma ret_of_checkReturn (h : w.checkReturn = .ok ()) (after : w.request.kind = .after) :
    w.request.hook.sig.ret = w.target.ret := by
  unfold checkReturn at h
  split_ifs at h with differs
  · cases h
  · by_contra other
    exact differs ⟨after, other⟩

/-! ## One load for each parameter -/

lemma supplies_loadResult {result : UInt16} (there : locals[result.toNat]? = some w.target.ret)
    (gives : w.givesResult p) (checked : w.checkResult p = .ok ()) :
    w.Supplies locals result.toNat position p (.ofCode id (w.loadResult result)) := by
  have type := type_of_checkResult checked
  refine ⟨?_, fun _ => ⟨type, ?_⟩, fun other => absurd gives other⟩
  · rw [type]
    unfold resultType loadResult
    split_ifs with byRef
    · exact .local (ShortForm.routine?_loadLocal id result) (ShortForm.localSlot?_loadLocal result id)
        there
    · exact .address (ShortForm.routine?_loadLocalAddress id result)
        (ShortForm.localSlot?_loadLocalAddress result id) there
  · unfold loadResult
    split_ifs
    · exact ⟨ShortForm.argSlot?_loadLocal result id, result,
        ShortForm.localSlot?_loadLocal result id, rfl⟩
    · exact ⟨ShortForm.argSlot?_loadLocalAddress result id, result,
        ShortForm.localSlot?_loadLocalAddress result id, rfl⟩

lemma supplies_loadArg {slot : UInt16} {result : Nat} (gives : ¬ w.givesResult p)
    (enough : slot.toNat < w.target.argCount) (fits : w.fitsArgument slot.toNat p.type = true) :
    w.Supplies locals result slot.toNat p (.ofCode id (ShortForm.loadArg slot)) := by
  have there := ShortForm.argSlot?_loadArg slot id
  have passed := passed_of_fitsArgument fits
  exact ⟨.argument (ShortForm.routine?_loadArg id slot) there passed,
    fun takes => absurd takes gives, fun _ => ⟨passed, enough, slot, there, rfl⟩⟩

/-- The loads supply the parameters one by one, if the hook fits and there is a local for the result
where a parameter takes it. -/
lemma supplies_loads {result : Nat} (loaded : w.loads slot position params = .ok code)
    (checked : w.checkParameters position params = .ok ())
    (there : ∀ s ∈ slot, s.toNat = result ∧ locals[s.toNat]? = some w.target.ret)
    (results : ∀ p ∈ params, w.givesResult p ↔ (slot.filter fun _ => w.takesResult p).isSome)
    (at' : params[k]? = some p) :
    ∃ c, code[k]? = some c ∧ ∀ id,
      w.Supplies locals result (position + w.argumentsBefore params k) p (.ofCode id c) := by
  replace loaded := loading_of_loads loaded
  induction loaded generalizing k with
  | nil => cases at'
  | @result position q params s code taken _ ih =>
    obtain ⟨gives, others⟩ := List.forall_mem_cons.1 results
    -- The parameter takes the result, and does not count as one that is given an argument.
    replace gives := gives.2 (taken ▸ rfl)
    obtain ⟨first, rest⟩ := of_checkParameters_of_gives gives checked
    obtain ⟨rfl, _⟩ := Option.filter_eq_some_iff.1 taken
    obtain ⟨rfl, held⟩ := there s rfl
    cases k with
    | zero =>
      cases at'
      exact ⟨_, rfl, fun id => supplies_loadResult held gives first⟩
    | succ k =>
      obtain ⟨c, found, supplies⟩ := ih rest others at'
      refine ⟨c, found, fun id => ?_⟩
      rw [argumentsBefore_of_gives gives]
      exact supplies id
  | @argument position q params s code taken found _ ih =>
    obtain ⟨gives, others⟩ := List.forall_mem_cons.1 results
    replace gives : ¬ w.givesResult q := fun h => Option.isSome_iff_ne_none.1 (gives.1 h) taken
    obtain ⟨enough, fits, rest⟩ := of_checkParameters_of_not_gives gives checked
    cases k with
    | zero =>
      cases at'
      cases argumentSlot_eq_ok found
      exact ⟨_, rfl, fun id => supplies_loadArg gives enough fits⟩
    | succ k =>
      obtain ⟨c, found, supplies⟩ := ih rest others at'
      refine ⟨c, found, fun id => ?_⟩
      rw [argumentsBefore_of_not_gives gives, Nat.add_comm _ 1, ← Nat.add_assoc]
      exact supplies id

section

variable {result : Nat} (length : loads.length = params.length)
  (supplies : ∀ {k p}, params[k]? = some p → ∃ c, loads[k]? = some c
    ∧ ∀ id, w.Supplies locals result (w.argumentsBefore params k) p (.ofCode id c))

include length supplies

/-- What supplies the parameters loads what has their types. -/
lemma typed_of_supplies :
    List.Forall₂ (fun type i => Instruction.Loads w.target w.owner locals i type)
      (params.map (·.type)) (InstructionList.number n loads) := by
  rw [List.forall₂_map_left_iff, List.forall₂_iff_get]
  refine ⟨by rw [InstructionList.length_number, length], fun k hk hk' => ?_⟩
  obtain ⟨c, found, supplied⟩ := supplies (List.getElem?_eq_getElem hk)
  obtain ⟨_, same⟩ := List.getElem?_eq_some_iff.1
    (InstructionList.getElem?_number_of_eq_some (n := n) found)
  show Instruction.Loads _ _ _ (InstructionList.number n loads)[k] _
  rw [same]
  exact (supplied _).typed

/-- What supplies the parameters names argument slots of the target only. -/
lemma argSlot_lt_of_supplies {named : UInt16} (hc : c ∈ loads)
    (names : (Instruction.ofCode id c).argSlot? = some named) : named.toNat < w.target.argCount := by
  obtain ⟨k, bound, rfl⟩ := List.mem_iff_getElem.1 hc
  rw [length] at bound
  obtain ⟨c, found, supplied⟩ := supplies (List.getElem?_eq_getElem bound)
  obtain ⟨_, rfl⟩ := List.getElem?_eq_some_iff.1 found
  by_cases gives : w.givesResult params[k]
  · cases ((supplied id).result gives).2.1.symm.trans names
  · obtain ⟨_, enough, slot', there, position⟩ := (supplied id).argument gives
    cases there.symm.trans names
    rwa [position]

end

/-! ## The code around the loads -/

lemma argSlot?_preparation (hc : c ∈ w.preparation slot) :
    (Instruction.ofCode id c).argSlot? = none ∧ ¬ (Instruction.ofCode id c).IsLoad := by
  cases slot with
  | none => cases hc
  | some result =>
    have hc : c ∈ w.makeResult result := hc
    cases byRef : w.target.ret.isByRef with
    | false =>
      rw [makeResult_value byRef] at hc
      cases hc
    | true =>
      obtain ⟨element, type⟩ := eq_byRef_of_isByRef byRef
      rw [makeResult_byRef type] at hc
      simp only [List.mem_cons, List.not_mem_nil, or_false] at hc
      obtain rfl | rfl | rfl | rfl | rfl := hc
      · exact ⟨rfl, by rintro (h | h) <;> cases h⟩
      · exact ⟨rfl, by rintro (h | h) <;> cases h⟩
      · exact ⟨rfl, by rintro (h | h) <;> cases h⟩
      · exact ⟨rfl, by rintro (h | h) <;> cases h⟩
      · refine ⟨ShortForm.argSlot?_storeLocal result id, ?_⟩
        unfold Instruction.IsLoad
        rw [ShortForm.routine?_storeLocal]
        exact nofun

lemma argSlot?_dispatch {first : InstrId} (hc : c ∈ w.dispatch slot first) :
    (Instruction.ofCode id c).argSlot? = none := by
  unfold dispatch at hc
  split_ifs at hc
  · cases slot with
    | none =>
      obtain rfl | rfl := List.mem_pair.1 hc
      · rfl
      · rfl
    | some result =>
      simp only [Option.map_some, Option.toList_some, List.cons_append, List.nil_append,
        List.mem_cons, List.not_mem_nil, or_false] at hc
      obtain rfl | rfl | rfl := hc
      · rfl
      · exact ShortForm.argSlot?_loadLocal result id
      · rfl
  · cases hc
  · cases List.mem_singleton.1 hc
    rfl

/-! ## The call -/

/-- A body calls the hook with what its parameters take. The call and what is loaded for it are new in
the body, and no other new instruction ahead of the call loads anything. -/
structure CallsTyped (w : Weaving) (b b' : MethodBody) (front loads : List Instruction)
    (call : Instruction) (rest : List Instruction) : Prop where
  items : b'.instructions.items = front ++ loads ++ call :: rest
  call : (call.op, call.operand) = w.call ∧ b.instructions.nextId ≤ call.id.val
  /-- There is one load for each parameter, of what has the parameter's type. -/
  typed : List.Forall₂ (fun type i => i.Loads w.target w.owner b'.locals type)
    w.request.hook.sig.params loads
  only : ∀ i ∈ front, b.instructions.nextId ≤ i.id.val → ¬ i.IsLoad
  /-- Only argument slots of the target are named. -/
  slots : ∀ i ∈ b'.instructions.items, b.instructions.nextId ≤ i.id.val → ∀ slot,
    i.argSlot? = some slot → slot.toNat < w.target.argCount
  /-- There is one more local, of the type of the result, if a parameter takes it. -/
  declares : (∃ p ∈ w.request.hookParams, w.givesResult p) → b'.locals = b.locals ++ [w.target.ret]
  /-- The loads are in the order of the parameters, and arguments in their own order. -/
  supplies : ∀ k p, w.request.hookParams[k]? = some p → ∃ i, loads[k]? = some i
    ∧ b.instructions.nextId ≤ i.id.val
    ∧ w.Supplies b'.locals b.locals.length (w.argumentsBefore w.request.hookParams k) p i

/-- New code in a body calls the hook as its parameters ask for, if nothing in it but the loads reads an
argument and nothing in front of these loads anything. -/
lemma callsTyped_of_items {before after : Code} {old old' : List Instruction}
    (items : b'.instructions.items = old ++ InstructionList.number b.instructions.nextId
      (before ++ loads ++ w.call :: after) ++ old')
    (older : ∀ i ∈ old ++ old', i.id.val < b.instructions.nextId)
    (ahead : ∀ c ∈ before, ∀ id, (Instruction.ofCode id c).argSlot? = none
      ∧ ¬ (Instruction.ofCode id c).IsLoad)
    (behind : ∀ c ∈ after, ∀ id, (Instruction.ofCode id c).argSlot? = none)
    (params : w.request.hook.sig.params = w.request.hookParams.map (·.type))
    (loaded : w.loads slot 0 w.request.hookParams = .ok loads)
    (fits : w.checkParameters 0 w.request.hookParams = .ok ())
    (there : ∀ s ∈ slot, s.toNat = b.locals.length ∧ b'.locals[s.toNat]? = some w.target.ret)
    (results : ∀ p ∈ w.request.hookParams,
      w.givesResult p ↔ (slot.filter fun _ => w.takesResult p).isSome)
    (declares : (∃ p ∈ w.request.hookParams, w.givesResult p) →
      b'.locals = b.locals ++ [w.target.ret]) :
    ∃ front loads call rest, w.CallsTyped b b' front loads call rest := by
  have length := (plain_loads loaded).1
  -- The loads supply the parameters, under whatever identities they stand.
  have supplies {k : Nat} {p : Parameter} (at' : w.request.hookParams[k]? = some p) :=
    supplies_loads loaded fits there results at'
  simp only [Nat.zero_add] at supplies
  refine ⟨old ++ InstructionList.number b.instructions.nextId before,
    InstructionList.number (b.instructions.nextId + before.length) loads,
    .ofCode ⟨b.instructions.nextId + before.length + loads.length⟩ w.call,
    InstructionList.number (b.instructions.nextId + before.length + loads.length + 1) after ++ old',
    ?_, ⟨rfl, ?_⟩, ?_, fun i hi new => ?_, fun i hi new slot named => ?_, declares,
    fun k p at' => ?_⟩
  · rw [items, InstructionList.number_append, InstructionList.number_append, List.length_append]
    simp only [List.append_assoc, Nat.add_assoc]
    rfl
  · show _ ≤ b.instructions.nextId + before.length + loads.length
    omega
  · rw [params]
    exact typed_of_supplies length supplies
  · cases List.mem_append.1 hi with
    | inl mem => exact absurd new (Nat.not_le_of_lt (older i (List.mem_append_left _ mem)))
    | inr mem =>
      obtain ⟨c, hc, id, rfl⟩ := InstructionList.exists_of_mem_number mem
      exact (ahead c hc id).2
  · obtain ⟨c, hc, id, rfl⟩ := InstructionList.exists_of_mem_number
      (InstructionList.mem_number_of_new older (items ▸ hi) new)
    rw [List.append_assoc] at hc
    obtain hc | hc | hc := (List.mem_append.1 hc).imp_right List.mem_append.1
    · cases (ahead c hc id).1.symm.trans named
    · exact argSlot_lt_of_supplies length supplies hc named
    · cases List.mem_cons.1 hc with
      | inl same =>
        cases same
        cases named
      | inr hc => cases (behind c hc id).symm.trans named
  · obtain ⟨c, found, supplies⟩ := supplies at'
    refine ⟨_, InstructionList.getElem?_number_of_eq_some found, ?_, supplies _⟩
    show _ ≤ b.instructions.nextId + before.length + k
    omega

/-- What is woven ahead of a body calls the hook with what its parameters take. -/
lemma callsTyped_bodyBefore (kind : w.request.kind = .before) (h : w.bodyBefore = .ok b')
    (params : w.request.hook.sig.params = w.request.hookParams.map (·.type))
    (fits : w.checkParameters 0 w.request.hookParams = .ok ()) :
    ∃ b front loads call rest, w.target.body = some b ∧ w.CallsTyped b b' front loads call rest := by
  obtain ⟨b, first, slot, code, there, _, written, items, _, _, extended, _⟩ := of_bodyBefore_eq_ok h
  obtain ⟨loads, loaded, rfl⟩ := prologue_eq_ok written
  have has : w.hasResult = slot.isSome := by
    obtain ⟨has, rfl, _⟩ | ⟨has, _, rfl, _⟩ := extended
    · exact has
    · exact has
  have results : ∀ p ∈ w.request.hookParams,
      w.givesResult p ↔ (slot.filter fun _ => w.takesResult p).isSome :=
    fun p hp => givesResult_iff kind has hp
  have held : ∀ s ∈ slot, s.toNat = b.locals.length ∧ b'.locals[s.toNat]? = some w.target.ret := by
    intro s hs
    obtain ⟨_, rfl, _⟩ | ⟨_, room, rfl, more⟩ := extended
    · cases hs
    · cases hs
      have position : (UInt16.ofNat b.locals.length).toNat = b.locals.length :=
        UInt16.toNat_ofNat_of_lt' room
      rw [position, more, List.getElem?_append_right (Nat.le_refl _), Nat.sub_self]
      exact ⟨rfl, rfl⟩
  have declares : (∃ p ∈ w.request.hookParams, w.givesResult p) →
      b'.locals = b.locals ++ [w.target.ret] := by
    rintro ⟨p, hp, gives⟩
    obtain ⟨_, rfl, _⟩ | ⟨_, _, _, more⟩ := extended
    · cases (results p hp).1 gives
    · exact more
  have whole : b'.instructions.items = [] ++ InstructionList.number b.instructions.nextId
      (w.preparation slot ++ loads ++ w.call :: w.dispatch slot first.id) ++ b.instructions.items := items
  obtain ⟨front, loads, call, rest, typed⟩ := callsTyped_of_items whole
    (by simpa using b.instructions.below) (fun c hc id => argSlot?_preparation hc)
    (fun c hc id => argSlot?_dispatch hc) params loaded fits held results declares
  exact ⟨b, front, loads, call, rest, there, typed⟩

/-- What is woven behind a body calls the hook with what its parameters take. -/
lemma callsTyped_bodyAfter (kind : w.request.kind = .after) (h : w.bodyAfter = .ok b')
    (params : w.request.hook.sig.params = w.request.hookParams.map (·.type))
    (fits : w.checkParameters 0 w.request.hookParams = .ok ()) :
    ∃ b front loads call rest, w.target.body = some b ∧ w.CallsTyped b b' front loads call rest := by
  obtain ⟨b, pre, last, code, there, was, _, written, items, _, _, _⟩ := of_bodyAfter_eq_ok h
  obtain ⟨loads, loaded, rfl⟩ := epilogue_eq_ok written
  have never {p : Parameter} : ¬ w.givesResult p := fun gives => nomatch kind.symm.trans gives.1
  have older : ∀ i ∈ pre.map (·.retarget last.id ⟨b.instructions.nextId⟩) ++ [],
      i.id.val < b.instructions.nextId := by
    intro i hi
    rw [List.append_nil] at hi
    obtain ⟨j, hj, rfl⟩ := List.mem_map.1 hi
    exact b.instructions.below j (was ▸ List.mem_append_left _ hj)
  have ahead : ∀ c ∈ (if w.target.returnsValue then [(.pop, .none)] else [] : Code), ∀ id,
      (Instruction.ofCode id c).argSlot? = none ∧ ¬ (Instruction.ofCode id c).IsLoad := by
    intro c hc id
    split_ifs at hc
    · cases List.mem_singleton.1 hc
      exact ⟨rfl, by rintro (h | h) <;> cases h⟩
    · cases hc
  have behind : ∀ c ∈ ([(.ret, .none)] : Code), ∀ id, (Instruction.ofCode id c).argSlot? = none := by
    intro c hc id
    cases List.mem_singleton.1 hc
    rfl
  have whole : b'.instructions.items = pre.map (·.retarget last.id ⟨b.instructions.nextId⟩)
      ++ InstructionList.number b.instructions.nextId
        ((if w.target.returnsValue then [(.pop, .none)] else []) ++ loads ++ w.call :: [(.ret, .none)])
      ++ [] := by
    rw [items, List.append_nil]
  obtain ⟨front, loads, call, rest, typed⟩ := callsTyped_of_items whole older ahead behind params
    loaded fits (fun s hs => nomatch hs) (fun p hp => iff_of_false never nofun)
    (fun ⟨p, hp, gives⟩ => absurd gives never)
  exact ⟨b, front, loads, call, rest, there, typed⟩

/-- A checked hook is static, and what is woven calls it with what its parameters take: in front of the
call stands one load for each parameter, and what is loaded has the parameter's type. What it gives
behind its target is what the target gives. -/
theorem weave_checked_typed (h : w.weave true = .ok target')
    (params : w.request.hook.sig.params = w.request.hookParams.map (·.type)) :
    w.request.hookIsStatic = true
      ∧ (w.request.kind = .after → w.request.hook.sig.ret = w.target.ret)
      ∧ ∃ b b' front loads call rest, w.target.body = some b ∧ target'.body = some b'
        ∧ w.CallsTyped b b' front loads call rest := by
  obtain ⟨checked, b', rfl, before, after⟩ := of_weave_eq_ok h
  obtain ⟨static, _, fits, returns⟩ := of_check_eq_ok checked
  refine ⟨static, ret_of_checkReturn returns, ?_⟩
  cases kind : w.request.kind with
  | before =>
    obtain ⟨b, front, loads, call, rest, there, typed⟩ :=
      callsTyped_bodyBefore kind (before kind) params fits
    exact ⟨b, b', front, loads, call, rest, there, rfl, typed⟩
  | after =>
    obtain ⟨b, front, loads, call, rest, there, typed⟩ :=
      callsTyped_bodyAfter kind (after kind) params fits
    exact ⟨b, b', front, loads, call, rest, there, rfl, typed⟩

/-! ## An example -/

namespace Example

open HookWeave.Example

/-- The discount is given the amount and the address of the result, as it declares them. -/
theorem discount_typed :
    discounting.weave true = .ok discountedPrice
      ∧ discounting.request.hook.sig.params = discounting.request.hookParams.map (·.type)
      ∧ discounting.request.hookIsStatic = true
      ∧ ∃ front loads call rest,
        discounting.CallsTyped priceBody discountedBody front loads call rest := by
  obtain ⟨static, _, b, b', front, loads, call, rest, there, there', typed⟩ :=
    weave_checked_typed weave_discounting rfl
  cases there
  cases there'
  exact ⟨weave_discounting, rfl, static, front, loads, call, rest, typed⟩

end Example

end Weaving
end HookWeave

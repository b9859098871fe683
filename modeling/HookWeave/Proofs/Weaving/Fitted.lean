import HookWeave.Proofs.Code.Peaks
import HookWeave.Proofs.Weaving.Again

/-!
# Hooks that fit are woven

A hook that fits, and that takes what its request says, is woven into every body in which the stack balances
(`Weaving.weave_of_check`), if there is a slot for one more local where the hook needs it, and if no depth is
too great. The greatest depth ahead of the target is the greater of the one that was there and the one in the
code of the hook (`Weaving.peakAhead`). After the target, the old return counts no more, and the code of the
hook counts with the depths with which the return was reached (`Weaving.peakBehind`).
-/

namespace HookWeave

/-- A path arrives at the last instruction with a depth. -/
def MethodBody.EndsWith (b : MethodBody) (returnsValue : Bool) (d : Nat) : Prop :=
  b.instructions.Arrives {e | e ∈ b.handlerEntries} returnsValue (b.instructions.size - 1) d

/-- The stack has a depth before or behind an instruction other than the last, at which a path arrives. -/
def MethodBody.SeesBefore (b : MethodBody) (returnsValue : Bool) (d : Nat) : Prop :=
  b.instructions.OccursAmong {e | e ∈ b.handlerEntries} returnsValue (b.instructions.size - 1) d

namespace Weaving

variable {w : Weaving} {b b' x y : MethodBody} {slot : Option UInt16} {first : InstrId} {code loads rest : Code}
  {returnsValue : Bool} {d m p position : Nat} {params : List Parameter}

/-! ## Depths in woven code -/

/-- The greatest depth in the code ahead of the target. Two values are needed to prepare the local for a
result that is an address. -/
def peakAhead (w : Weaving) : Nat :=
  max (if w.hasResult && w.target.ret.isByRef then 2 else 0)
    (max w.request.hookParams.length (!w.request.hook.sig.ret.isVoid).toNat)

/-- The greatest depth in the code behind the target, which is entered with what the target returns on the
stack. -/
def peakBehind (w : Weaving) (d : Nat) : Nat :=
  max d (d - w.target.returnsValue.toNat + w.request.hookParams.length)

lemma peaks_loads (loaded : w.loads slot position params = .ok loads)
    (h : Peaks returnsValue rest (d + params.length) p) : Peaks returnsValue (loads ++ rest) d p :=
  push_loads (P := fun code d => Peaks returnsValue code d p) loaded
    (fun _ _ _ _ takes onward => .push (takes returnsValue) onward) h

/-- What comes behind the call sees no greater depth than the result of the hook. -/
lemma peaks_dispatch : Peaks returnsValue (w.dispatch slot first) (!w.request.hook.sig.ret.isVoid).toNat
    (!w.request.hook.sig.ret.isVoid).toNat := by
  have returned (d : Nat) : Peaks returnsValue [(.ret, .none)] d d :=
    .cons rfl rfl .nil (Nat.max_eq_left (Nat.sub_le d _))
  by_cases skips : w.maySkip = true
  · rw [dispatch_maySkip _ _ skips, isVoid_of_maySkip skips]
    cases slot with
    | none => exact .cons (d := 1) rfl rfl (returned 0) rfl
    | some slot =>
      have loaded : Peaks returnsValue [ShortForm.loadLocal slot, (.ret, .none)] 0 1 :=
        .push (ShortForm.stackEffect_loadLocal slot returnsValue ⟨0⟩) (returned 1)
      exact .cons (d := 1) rfl rfl loaded rfl
  · unfold dispatch
    rw [if_neg skips]
    cases w.request.hook.sig.ret.isVoid with
    | true => exact .nil
    | false => exact .cons (c := (.pop, .none)) (d := 1) rfl rfl .nil rfl

lemma peaks_preparation (h : Peaks returnsValue rest 0 p) :
    Peaks returnsValue (w.preparation slot ++ rest) 0
      (max (if slot.isSome && w.target.ret.isByRef then 2 else 0) p) := by
  have needless : max 0 p = p := Nat.max_eq_right (Nat.zero_le p)
  cases slot with
  | none =>
    show Peaks returnsValue rest 0 (max 0 p)
    rwa [needless]
  | some slot =>
    show Peaks returnsValue (w.makeResult slot ++ rest) 0 (max (if w.target.ret.isByRef then 2 else 0) p)
    by_cases value : w.target.ret.isByRef = true
    · obtain ⟨element, ofType⟩ := eq_byRef_of_isByRef value
      rw [makeResult_byRef ofType, if_pos value]
      have stored : Peaks returnsValue (ShortForm.storeLocal slot :: rest) 1 (max 1 p) :=
        .cons (ShortForm.stackEffect_storeLocal slot returnsValue ⟨0⟩) rfl h rfl
      have addressed : Peaks returnsValue ((.ldelema, .type element) :: ShortForm.storeLocal slot :: rest) 2
          (max 2 p) := .cons rfl rfl stored (by omega)
      have allocated : Peaks returnsValue ((.newarr, .type element) :: (.ldcI4_0, .none)
          :: (.ldelema, .type element) :: ShortForm.storeLocal slot :: rest) 1 (max 2 p) :=
        .cons rfl rfl (.push rfl addressed) (by omega)
      exact .push rfl allocated
    · rw [Bool.not_eq_true] at value
      rw [makeResult_value value, if_neg (Bool.eq_false_iff.1 value), needless]
      exact h

section

variable (checked : w.check = .ok ()) (describes : w.request.Describes)
include checked describes

lemma peaks_call (h : Peaks returnsValue rest (d + (!w.request.hook.sig.ret.isVoid).toNat) p) :
    Peaks returnsValue (w.call :: rest) (d + w.request.hookParams.length)
      (max (d + w.request.hookParams.length) p) := by
  have takes : (Instruction.ofCode ⟨0⟩ w.call).stackEffect returnsValue
    = .ok ⟨w.request.hook.sig.argCount, (!w.request.hook.sig.ret.isVoid).toNat⟩ := rfl
  refine .cons takes ?_ h rfl
  rw [StackEffect.after, argCount_of_check checked describes, Nat.add_sub_cancel]

lemma peaks_prologue (written : w.prologue slot first = .ok code) (has : slot.isSome = w.hasResult) :
    Peaks w.target.returnsValue code 0 w.peakAhead := by
  obtain ⟨loads, loaded, rfl⟩ := prologue_eq_ok written
  rw [List.append_assoc, peakAhead, ← has]
  refine peaks_preparation (peaks_loads loaded ?_)
  have behind : Peaks w.target.returnsValue (w.dispatch slot first)
      (0 + (!w.request.hook.sig.ret.isVoid).toNat) (!w.request.hook.sig.ret.isVoid).toNat := by
    rw [Nat.zero_add]
    exact peaks_dispatch
  have called := peaks_call checked describes behind
  rwa [Nat.zero_add] at called ⊢

lemma peaks_epilogue (after : w.request.kind = .after) (written : w.epilogue = .ok code)
    (enough : w.target.returnsValue.toNat ≤ d) :
    Peaks w.target.returnsValue code d (w.peakBehind d) := by
  obtain ⟨loads, loaded, rfl⟩ := epilogue_eq_ok written
  have returned : Peaks w.target.returnsValue [(.ret, .none)] d d :=
    .cons rfl rfl .nil (Nat.max_eq_left (Nat.sub_le d _))
  have called : Peaks w.target.returnsValue (loads ++ [w.call, (.ret, .none)])
      (d - w.target.returnsValue.toNat) (w.peakBehind d) := by
    refine peaks_loads loaded ?_
    rw [peakBehind, Nat.max_comm]
    refine peaks_call checked describes ?_
    rwa [returns_of_check checked after, Nat.sub_add_cancel enough]
  rw [List.append_assoc]
  cases returns : w.target.returnsValue with
  | false =>
    rw [returns] at called
    exact called
  | true =>
    rw [returns] at called
    exact .cons rfl rfl called (Nat.max_eq_right (Nat.le_max_left _ _))

end

/-! ## Every part goes well -/

/-- There is a slot for every argument up to the greatest that there can be. -/
lemma loads_isOk (w : Weaving) (slot : Option UInt16) (position : Nat) (params : List Parameter)
    (few : position + params.length ≤ 65536) : ∃ code, w.loads slot position params = .ok code := by
  induction params generalizing position with
  | nil => exact ⟨[], rfl⟩
  | cons p params ih =>
    rw [List.length_cons] at few
    unfold loads
    cases taken : slot.filter fun _ => w.takesResult p with
    | some result =>
      obtain ⟨code, loaded⟩ := ih position (by omega)
      exact ⟨_, bind_eq_ok.2 ⟨code, loaded, rfl⟩⟩
    | none =>
      obtain ⟨code, loaded⟩ := ih (position + 1) (by omega)
      have small : position < UInt16.size := by
        rw [UInt16.size]
        omega
      have found : w.argumentSlot position = .ok (UInt16.ofNat position) := if_pos small
      exact ⟨_, bind_eq_ok.2 ⟨_, found, bind_eq_ok.2 ⟨code, loaded, rfl⟩⟩⟩

/-- Where no result is taken, arguments are loaded only if there is a slot for each. -/
lemma few_of_loads (h : w.loads none position params = .ok loads) (inhabited : params ≠ []) :
    position + params.length ≤ 65536 := by
  induction params generalizing position loads with
  | nil => exact absurd rfl inhabited
  | cons p params ih =>
    obtain ⟨slot, found, more⟩ := bind_eq_ok.1 h
    obtain ⟨others, loaded, _⟩ := bind_eq_ok.1 more
    have small : position < 65536 := by
      by_contra great
      have failed : w.argumentSlot position = .error _ := if_neg great
      cases found.symm.trans failed
    rw [List.length_cons]
    cases params with
    | nil => exact small
    | cons q params =>
      have bound := ih loaded (List.cons_ne_nil q params)
      omega

/-- Only a parameter that is named as the receiver can fail to fit as one. -/
lemma checkReceiver_of_none (others : ∀ p ∈ w.request.hookParams, w.takesReceiver p = false) :
    w.checkReceiver = .ok () := by
  unfold checkReceiver
  cases listed : w.request.hookParams with
  | nil => rfl
  | cons p params =>
    obtain ⟨first, rest⟩ := List.forall_mem_cons.1 (listed ▸ others)
    have none : params.any w.takesReceiver = false :=
      List.any_eq_false.2 fun q mem => Bool.eq_false_iff.1 (rest q mem)
    show (if (w.takesReceiver p && _) = true then _ else if params.any _ = true then _ else _) = _
    rw [first, none]
    rfl

/-- A hook that fits takes the address of a result only if there is one. -/
lemma returnsValue_of_check (checked : w.check = .ok ()) (before : w.request.kind = .before)
    (uses : w.usesResult = true) : w.target.returnsValue = true := by
  obtain ⟨_, _, fits, _⟩ := of_check_eq_ok checked
  unfold usesResult at uses
  generalize w.request.hookParams = params, 0 = position at fits uses
  induction params generalizing position with
  | nil => cases uses
  | cons p params ih =>
    obtain ⟨_, fit, others⟩ | ⟨gives, _, _, others⟩ := of_checkParameters_eq_ok fits
    · unfold checkResult at fit
      split_ifs at fit with void
      · cases fit
      · cases fit
      · rw [MethodDeclaration.returnsValue, Bool.eq_false_iff.2 void]
        rfl
    · rw [List.any_cons, Bool.or_eq_true] at uses
      exact ih _ others (uses.resolve_left fun takes => gives ⟨before, takes⟩)

/-- The local for a result is added where there is a slot for it. -/
lemma withResult_isOk (room : b.locals.length < MethodBody.maxLocals)
    (returns : w.usesResult = true → w.target.returnsValue = true) :
    ∃ slot x, w.withResult b = .ok (slot, x) ∧ slot.isSome = w.hasResult
      ∧ x.instructions = b.instructions ∧ x.clauses = b.clauses := by
  have useful : (w.usesResult && !w.target.returnsValue) = false := by
    cases uses : w.usesResult with
    | false => rfl
    | true =>
      rw [returns uses]
      rfl
  unfold withResult
  rw [useful]
  show ∃ slot x, (if w.hasResult then _ else _) = _ ∧ _
  cases w.hasResult with
  | false => exact ⟨none, b, rfl, rfl, rfl, rfl⟩
  | true =>
    have added : b.addLocal w.target.ret = .ok (_, _) := MethodBody.addLocal_eq_ok.2 ⟨room, rfl, rfl⟩
    exact ⟨some _, _, bind_eq_ok.2 ⟨_, added, rfl⟩, rfl, rfl, rfl⟩

/-- The stack of a body balances where it does along all paths and no depth is too great. -/
lemma balanced_isOk (h : x.Balances w.target.returnsValue) : ∃ y, w.balanced x = .ok y := by
  obtain ⟨m, greatest, computed⟩ := InstructionList.maxStack_of_balance h.inhabited h.balance
  rw [if_pos (h.bounded m greatest.1)] at computed
  refine ⟨{ x with maxStack := UInt16.ofNat m }, ?_⟩
  unfold balanced MethodBody.updateMaxStack
  rw [computed]
  rfl

section

variable (checked : w.check = .ok ()) (describes : w.request.Describes) (there : w.target.body = some b)
  (balances : b.Balances w.target.returnsValue)
include checked describes there balances

/-- A hook that fits is put ahead of its target. -/
lemma bodyBefore_isOk (before : w.request.kind = .before) (room : b.locals.length < MethodBody.maxLocals)
    (shallow : w.peakAhead ≤ 65535) : ∃ b', w.bodyBefore = .ok b' := by
  obtain ⟨first, head, start⟩ := balances.starts
  have returns := returnsValue_of_check checked before
  obtain ⟨slot, x, extended, has, instructions, clauses⟩ := withResult_isOk room returns
  have few : w.request.hookParams.length ≤ w.peakAhead :=
    (Nat.le_max_left _ _).trans (Nat.le_max_right _ _)
  obtain ⟨loads, loaded⟩ := loads_isOk w slot 0 w.request.hookParams (by omega)
  have written : w.prologue slot first.id = .ok _ := bind_eq_ok.2 ⟨loads, loaded, rfl⟩
  obtain ⟨l, edited, fronted⟩ := MethodBody.insertAll_isOk (b := x) (instructions ▸ head)
    fun _ hc _ named => eq_of_mem_targets_prologue written hc named
  rw [instructions] at fronted
  have guides := guides_prologue checked describes written has returns
  have peaks := peaks_prologue checked describes written has
  have entries : MethodBody.handlerEntries { x with instructions := l } = b.handlerEntries :=
    congrArg (List.map _) clauses
  have grown : MethodBody.Balances w.target.returnsValue { x with instructions := l } := by
    refine ⟨fronted.isEmpty_eq balances.inhabited, ?_, fun d occurs => ?_⟩
    · rw [entries]
      exact fronted.balance_of_old guides start balances.balance
    · rw [entries] at occurs
      obtain seen | was := (fronted.occurs_iff guides start balances.balance).1 occurs
      · exact (peaks.2 (.inr seen)).trans shallow
      · exact balances.bounded d was
  obtain ⟨b', done⟩ := balanced_isOk grown
  refine ⟨b', bind_eq_ok.2 ⟨b, body_eq_ok.2 there, ?_⟩⟩
  rw [head]
  exact bind_eq_ok.2 ⟨_, extended, bind_eq_ok.2 ⟨_, written, bind_eq_ok.2 ⟨_, edited, done⟩⟩⟩

/-- A hook that fits is put behind a target that ends with a return. -/
lemma bodyAfter_isOk {last : Instruction} (after : w.request.kind = .after)
    (final : b.instructions.last? = some last) (isRet : last.op = .ret)
    (few : w.request.hookParams.length ≤ 65536)
    (shallow : ∀ d, b.EndsWith w.target.returnsValue d → w.peakBehind d ≤ 65535) :
    ∃ b', w.bodyAfter = .ok b' := by
  obtain ⟨pre, split⟩ := List.getLast?_eq_some_iff.1 final
  obtain ⟨loads, loaded⟩ := loads_isOk w none 0 w.request.hookParams (by omega)
  have written : w.epilogue = .ok _ := bind_eq_ok.2 ⟨loads, loaded, rfl⟩
  obtain ⟨l, edited, ended⟩ := replaceLast_isOk split (by simp) (targets_epilogue written)
  have guides (d : Nat) (enough : w.target.returnsValue.toNat ≤ d) :=
    guides_epilogue checked describes after written enough
  let longer : MethodBody := { b with
    instructions := l
    clauses := b.clauses.map (·.retarget last.id (some ⟨b.instructions.nextId⟩)) }
  have ended : b.instructions.Ended longer.instructions pre last _ := ended
  have renamed : {e | e ∈ longer.handlerEntries} = _ := handlerEntries_retarget rfl
  unfold MethodBody.EndsWith at shallow
  rw [ended.size, Nat.add_sub_cancel] at shallow
  have grown : longer.Balances w.target.returnsValue := by
    refine ⟨ended.isEmpty_eq, ended.balance_of_old isRet renamed guides balances.balance, fun d occurs => ?_⟩
    obtain was | ⟨d₀, arrived, seen⟩ :=
      (ended.occurs_iff isRet renamed guides balances.balance).1 occurs
    · exact balances.bounded d was.occurs
    · have enough := balances.balance.enough arrived ended.getElem?_last (Instruction.stackEffect_ret isRet)
      have peaks := peaks_epilogue checked describes after written enough
      exact (peaks.2 (.inr seen)).trans (shallow d₀ arrived)
  obtain ⟨b', done⟩ := balanced_isOk grown
  refine ⟨b', bind_eq_ok.2 ⟨b, body_eq_ok.2 there, ?_⟩⟩
  rw [final, Option.filter_some, if_pos (decide_eq_true isRet)]
  exact bind_eq_ok.2 ⟨_, written, bind_eq_ok.2 ⟨_, edited, done⟩⟩

end

/-! ## The greatest depths -/

section

variable (checked : w.check = .ok ()) (describes : w.request.Describes)
  (inhabited : b.instructions.isEmpty = false)
  (computed : b.instructions.maxStack b.handlerEntries w.target.returnsValue = .ok m)
include checked describes inhabited computed

lemma maxStack_of_frontedBy {head : Instruction} (before : w.request.kind = .before)
    (ahead : w.FrontedBy b b' head code) :
    IsGreatest {d | Sees w.target.returnsValue code 0 d} w.peakAhead
      ∧ b'.maxStack.toNat = max m w.peakAhead := by
  have has : (if w.hasResult then some (UInt16.ofNat b.locals.length) else none).isSome = w.hasResult := by
    cases w.hasResult <;> rfl
  have guides := guides_prologue checked describes ahead.written has (returnsValue_of_check checked before)
  have peaks : IsGreatest {d | Sees w.target.returnsValue code 0 d} w.peakAhead := by
    refine (peaks_prologue checked describes ahead.written has).isGreatest ?_
    obtain ⟨loads, _, rfl⟩ := prologue_eq_ok ahead.written
    simp
  have start : b.instructions.position? head.id = some 0 :=
    InstructionList.position?_of_first? ahead.head
  obtain ⟨balance, greatest, _⟩ := (InstructionList.maxStack_eq_ok_balance inhabited).1 computed
  obtain ⟨n, computed', depth⟩ := ahead.maxStack
  obtain ⟨_, greatest', fits⟩ :=
    (InstructionList.maxStack_eq_ok_balance (ahead.fronted.isEmpty_eq inhabited)).1 computed'
  have entries : b'.handlerEntries = b.handlerEntries := congrArg (List.map _) ahead.clauses
  rw [entries] at greatest'
  have both : {d | b'.instructions.Occurs {e | e ∈ b.handlerEntries} w.target.returnsValue d}
      = {d | b.instructions.Occurs {e | e ∈ b.handlerEntries} w.target.returnsValue d}
        ∪ {d | Sees w.target.returnsValue code 0 d} := by
    ext d
    exact (ahead.fronted.occurs_iff guides start balance).trans or_comm
  rw [both] at greatest'
  refine ⟨peaks, ?_⟩
  rw [depth, UInt16.toNat_ofNat_of_lt' (Nat.lt_succ_of_le fits)]
  exact greatest'.unique (greatest.union peaks)

lemma maxStack_of_endedBy {pre : List Instruction} {last : Instruction} (after : w.request.kind = .after)
    (isRet : last.op = .ret) (behind : w.EndedBy b b' pre last code) :
    (∀ d, b.EndsWith w.target.returnsValue d →
        IsGreatest {e | Sees w.target.returnsValue code d e} (w.peakBehind d))
      ∧ IsGreatest {d | b.SeesBefore w.target.returnsValue d
        ∨ ∃ e, b.EndsWith w.target.returnsValue e ∧ Sees w.target.returnsValue code e d}
          b'.maxStack.toNat := by
  have ended := behind.ended
  have renamed := handlerEntries_retarget behind.clauses
  have guides (d : Nat) (enough : w.target.returnsValue.toNat ≤ d) :=
    guides_epilogue checked describes after behind.written enough
  obtain ⟨balance, _, _⟩ := (InstructionList.maxStack_eq_ok_balance inhabited).1 computed
  obtain ⟨n, computed', depth⟩ := behind.maxStack
  obtain ⟨_, greatest', fits⟩ := (InstructionList.maxStack_eq_ok_balance ended.isEmpty_eq).1 computed'
  unfold MethodBody.EndsWith MethodBody.SeesBefore
  rw [ended.size, Nat.add_sub_cancel]
  constructor
  · intro d arrived
    have enough := balance.enough arrived ended.getElem?_last (Instruction.stackEffect_ret isRet)
    exact (peaks_epilogue checked describes after behind.written enough).isGreatest ended.inhabited
  · rw [depth, UInt16.toNat_ofNat_of_lt' (Nat.lt_succ_of_le fits)]
    have both : {d | b'.instructions.Occurs {e | e ∈ b'.handlerEntries} w.target.returnsValue d} = {d | _} :=
      Set.ext fun d => ended.occurs_iff isRet renamed guides balance
    rwa [both] at greatest'

end

/-- A hook that fits, and that takes what its request says, is woven into every body in which the stack
balances, whether it is checked on the way or not. Ahead of the target that takes a slot for one more local,
and the greatest depth is the greater of what it was and what it is in the code of the hook. Behind the
target, the depths are those before its last return, and those in the code of the hook where this starts with
what was on the stack at the return. -/
theorem weave_of_check (verify : Bool) (there : w.target.body = some b)
    (inhabited : b.instructions.isEmpty = false)
    (computed : b.instructions.maxStack b.handlerEntries w.target.returnsValue = .ok m)
    (checked : w.check = .ok ()) (describes : w.request.Describes) :
    (w.request.kind = .before → b.locals.length ≤ 65535 → w.peakAhead ≤ 65535 →
      ∃ b' first code, w.weave verify = .ok { w.target with body := some b' }
        ∧ w.FrontedBy b b' first code
        ∧ IsGreatest {d | Sees w.target.returnsValue code 0 d} w.peakAhead
        ∧ b'.maxStack.toNat = max m w.peakAhead)
    ∧ ∀ last, w.request.kind = .after → b.instructions.last? = some last → last.op = .ret →
      w.request.hookParams.length ≤ 65536 →
      (∀ d, b.EndsWith w.target.returnsValue d → w.peakBehind d ≤ 65535) →
      ∃ b' pre code, w.weave verify = .ok { w.target with body := some b' }
        ∧ w.EndedBy b b' pre last code
        ∧ (∀ d, b.EndsWith w.target.returnsValue d →
          IsGreatest {e | Sees w.target.returnsValue code d e} (w.peakBehind d))
        ∧ IsGreatest {d | b.SeesBefore w.target.returnsValue d
          ∨ ∃ e, b.EndsWith w.target.returnsValue e ∧ Sees w.target.returnsValue code e d}
            b'.maxStack.toNat := by
  have balances := MethodBody.balances_of_maxStack inhabited computed
  constructor
  · intro before room shallow
    have room := Nat.lt_succ_of_le room
    obtain ⟨b', made⟩ := bodyBefore_isOk checked describes there balances before room shallow
    have woven : w.weave verify = .ok { w.target with body := some b' } := by
      unfold weave
      rw [before, checked, made]
      cases verify <;> rfl
    obtain ⟨_, first, code, same, ahead⟩ := frontedBy_of_weave woven before there
    cases same
    have depths := maxStack_of_frontedBy checked describes inhabited computed before ahead
    exact ⟨b', first, code, woven, ahead, depths⟩
  · intro last after final isRet few shallow
    obtain ⟨b', made⟩ := bodyAfter_isOk checked describes there balances after final isRet few shallow
    have woven : w.weave verify = .ok { w.target with body := some b' } := by
      unfold weave
      rw [after, checked, made]
      cases verify <;> rfl
    obtain ⟨_, pre, last', code, same, behind⟩ := endedBy_of_weave woven after there
    cases same
    cases final.symm.trans (InstructionList.last?_split behind.ended.was)
    have depths := maxStack_of_endedBy checked describes inhabited computed after isRet behind
    exact ⟨b', pre, code, woven, behind, depths⟩

namespace Example

lemma visit_maxStack :
    visitBody.instructions.maxStack visitBody.handlerEntries visit.returnsValue = .ok 1 :=
  InstructionList.maxStack_of_within rfl 20 (by decide +kernel)

/-- The visit takes the question ahead and the greeting behind, and its stack is as deep as it was. -/
theorem visit_takes_hooks :
    asking.check = .ok () ∧ asking.request.Describes ∧ greeting.check = .ok () ∧ greeting.request.Describes
      ∧ asking.peakAhead = 1 ∧ greeting.peakBehind 0 = 0
      ∧ (∃ b', asking.weave true = .ok (visitOf b') ∧ b'.maxStack.toNat = 1)
      ∧ ∃ b', greeting.weave true = .ok (visitOf b')
        ∧ IsGreatest {d | visitBody.SeesBefore false d
          ∨ ∃ e, visitBody.EndsWith false e ∧ Sees false [(.call, .method greet), (.ret, .none)] e d}
          b'.maxStack.toNat := by
  have asked : asking.check = .ok () ∧ asking.request.Describes := ⟨rfl, rfl, rfl⟩
  have greeted : greeting.check = .ok () ∧ greeting.request.Describes := ⟨rfl, rfl, rfl⟩
  have peak : asking.peakAhead = 1 := rfl
  refine ⟨asked.1, asked.2, greeted.1, greeted.2, peak, rfl, ?_, ?_⟩
  · obtain ⟨b', _, _, woven, _, _, depth⟩ :=
      (weave_of_check true rfl rfl visit_maxStack asked.1 asked.2).1 rfl (by decide) (by rw [peak]; decide)
    exact ⟨b', woven, depth⟩
  · obtain ⟨_, ⟨_, greatest⟩, _⟩ := (InstructionList.maxStack_eq_ok_balance rfl).1 visit_maxStack
    have shallow (d : Nat) (ends : visitBody.EndsWith false d) : greeting.peakBehind d ≤ 65535 := by
      have bound : d ≤ 1 := greatest (.before ends rfl)
      show max d d ≤ 65535
      omega
    obtain ⟨b', _, _, woven, behind, _, greatest'⟩ :=
      (weave_of_check true rfl rfl visit_maxStack greeted.1 greeted.2).2 ⟨⟨3⟩, .ret, .none⟩ rfl rfl rfl (by decide)
        shallow
    cases behind.written
    exact ⟨b', woven, greatest'⟩

/-- Says that it takes a receiver. -/
def knock : MethodRef :=
  ⟨⟨"Patches", "", "Hooks"⟩, "Knock", ⟨true, .void, []⟩⟩

/-- The knock ahead of the visit, by a request that says that it takes no receiver. -/
def knocking : Weaving :=
  ⟨{}, ⟨"Shop", "", "Door"⟩, visit, ⟨⟨"Shop", "", "Door"⟩, "Visit", knock, [], true, .before, []⟩⟩

/-- A body that never comes to its return. -/
def endlessBody : MethodBody where
  maxStack := 0
  initLocals := false
  locals := []
  instructions := .ofCode [(.brShort, .target ⟨0⟩), (.ret, .none)]
  clauses := []

/-- So many guests. -/
def crowd (n : Nat) : List Parameter :=
  List.replicate n ⟨"guest", .prim .bool⟩

/-- Greets a crowd. -/
def greetAll (n : Nat) : MethodRef :=
  ⟨⟨"Patches", "", "Hooks"⟩, "GreetAll", ⟨false, .void, (crowd n).map (·.type)⟩⟩

/-- The greeting behind the reception of a crowd. -/
def receiving (n : Nat) : Weaving :=
  ⟨{}, ⟨"Shop", "", "Hall"⟩, ⟨"Receive", 0x16, crowd n, .void, [], some endlessBody⟩,
    ⟨⟨"Shop", "", "Hall"⟩, "Receive", greetAll n, crowd n, true, .after, []⟩⟩

lemma endless_arrives {p d : Nat}
    (arrived : endlessBody.instructions.Arrives {e | e ∈ endlessBody.handlerEntries} false p d) : p = 0 := by
  induction arrived with
  | first => rfl
  | entry mem => cases mem
  | follow _ here _ _ goes ih =>
    subst ih
    cases here
    cases goes with
    | next on => cases on
    | target _ named position =>
      cases List.mem_singleton.1 named
      cases position
      rfl

lemma receiving_check (n : Nat) : (receiving n).check = .ok () := by
  have static : (receiving n).target.isStatic = true :=
    decide_eq_true (show (0x16 : UInt16) &&& MethodDeclaration.staticFlag = _ by decide)
  have count : (receiving n).target.argCount = n := by
    rw [MethodDeclaration.argCount, static]
    exact List.length_replicate
  have fits (position k : Nat) (all : position + k = n) :
      (receiving n).checkParameters position (crowd k) = .ok () := by
    induction k generalizing position with
    | zero => rfl
    | succ k ih =>
      have takes : (receiving n).fitsArgument position (.prim .bool) = true := by
        have guest : ((crowd n).map (·.type))[position]? = some (.prim .bool) := by
          rw [List.getElem?_map, crowd, List.getElem?_replicate, if_pos (by omega)]
          rfl
        unfold fitsArgument
        rw [if_pos static]
        exact decide_eq_true guest
      have enough : ¬ (receiving n).target.argCount ≤ position := by
        rw [count]
        omega
      have after : ¬ ((receiving n).request.kind = .before
          ∧ (receiving n).takesResult ⟨"guest", .prim .bool⟩ = true) := fun h => nomatch h.1
      rw [crowd, List.replicate_succ]
      unfold checkParameters
      rw [if_neg after, if_neg enough, takes]
      exact ih (position + 1) (by omega)
  have receives : (receiving n).checkReceiver = .ok () := by
    refine checkReceiver_of_none fun p (mem : p ∈ crowd n) => ?_
    rw [List.eq_of_mem_replicate mem]
    rfl
  unfold check
  rw [receives]
  show ((receiving n).checkParameters 0 (crowd n) >>= _) = _
  rw [fits 0 n (Nat.zero_add n)]
  rfl

/-- A hook is not woven that says that it takes a receiver where its request says that it takes none, and
neither is one that takes more arguments than there are slots for. -/
theorem hooks_not_woven :
    (knocking.check = .ok ()
      ∧ knocking.request.hook.sig.params = knocking.request.hookParams.map (·.type)
      ∧ knocking.request.kind = .before ∧ knocking.target.body = some visitBody
      ∧ visitBody.instructions.maxStack visitBody.handlerEntries knocking.target.returnsValue = .ok 1
      ∧ visitBody.instructions.isEmpty = false ∧ visitBody.locals.length ≤ 65535
      ∧ knocking.peakAhead ≤ 65535
      ∧ ∀ t, knocking.weave true ≠ .ok t)
    ∧ (receiving 65537).check = .ok () ∧ (receiving 65537).request.Describes
      ∧ (receiving 65537).request.kind = .after ∧ (receiving 65537).target.body = some endlessBody
      ∧ endlessBody.instructions.maxStack endlessBody.handlerEntries
        (receiving 65537).target.returnsValue = .ok 0
      ∧ endlessBody.instructions.last? = some ⟨⟨1⟩, .ret, .none⟩
      ∧ (∀ d, ¬ endlessBody.EndsWith (receiving 65537).target.returnsValue d)
      ∧ ∀ t, (receiving 65537).weave true ≠ .ok t := by
  refine ⟨⟨rfl, rfl, rfl, rfl, visit_maxStack, rfl, by decide, by decide, fun t woven => ?_⟩,
    receiving_check 65537, ⟨rfl, rfl⟩, rfl, rfl, ?_, rfl, fun d ends => ?_, fun t woven => ?_⟩
  · obtain ⟨b', first, code, _, ahead⟩ := frontedBy_of_weave woven rfl rfl
    obtain ⟨_, computed, _⟩ := ahead.maxStack
    cases ahead.written
    have called : b'.instructions.items[0]? = some (.ofCode ⟨4⟩ (.call, .method knock)) :=
      ahead.fronted.getElem?_front rfl
    have inhabited : b'.instructions.isEmpty = false :=
      List.isEmpty_eq_false_iff.2 (List.ne_nil_of_mem (List.mem_of_getElem? called))
    obtain ⟨balance, _⟩ := (InstructionList.maxStack_eq_ok_balance inhabited).1 computed
    exact absurd (balance.enough .first called rfl) (by decide)
  · exact InstructionList.maxStack_of_within rfl 20 (by decide +kernel)
  · exact absurd (endless_arrives ends) (by decide)
  · obtain ⟨_, _, _, code, _, behind⟩ := endedBy_of_weave woven rfl rfl
    obtain ⟨loads, loaded, _⟩ := epilogue_eq_ok behind.written
    have length : (receiving 65537).request.hookParams.length = 65537 := List.length_replicate
    have few := few_of_loads loaded (List.ne_nil_of_length_pos (by rw [length]; decide))
    rw [length] at few
    exact absurd few (by decide)

end Example

end Weaving
end HookWeave

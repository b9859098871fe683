import HookWeave.Proofs.Code.Alike
import HookWeave.Proofs.Code.Bounded
import HookWeave.Proofs.Weaving.Before
import HookWeave.Proofs.Weaving.Returns

/-!
# Hooks before and after one target

A hook woven ahead of a target and one woven behind it do not depend on the order in which they are woven:
the bodies differ in the identities of their instructions only (`weave_commutes`). A branch or a clause of
the target may name an instruction that is not there, but not one that is yet to be added, for the order
decides which instruction gets its identity (`Example.order_seen_by_stray`).
-/

namespace HookWeave

variable {r : InstrId → InstrId → Prop} {v w : Operand} {old new old' new' : InstrId}
  {code code' : List (OpCode × Operand)}

/-! ## Replaced targets -/

lemma Operand.sameBy_of_targets (h : ∀ id ∈ v.targets, r id id) : v.SameBy r v := by
  cases v with
  | target id => exact h id (List.mem_singleton_self _)
  | switch ids => exact List.forall₂_same.2 h
  | _ => rfl

lemma Operand.SameBy.retarget_left (h : v.SameBy (fun a b => r (a.replace old new) b) w) :
    (v.retarget old new).SameBy r w := by
  cases v with
  | target a =>
    cases w with
    | target b => exact h
    | _ => cases h
  | switch as =>
    cases w with
    | switch bs => exact List.forall₂_map_left_iff.2 h
    | _ => cases h
  | _ => cases w <;> exact h

lemma Operand.SameBy.retarget_right (h : v.SameBy (fun a b => r a (b.replace old new)) w) :
    v.SameBy r (w.retarget old new) := by
  cases v with
  | target a =>
    cases w with
    | target b => exact h
    | _ => cases h
  | switch as =>
    cases w with
    | switch bs => exact List.forall₂_map_right_iff.2 h
    | _ => cases h
  | _ => cases w <;> first | exact h | cases h

/-- An instruction in which a target is replaced in two ways. -/
lemma Instruction.alikeBy_retarget {i : Instruction}
    (h : ∀ id ∈ i.targets, r (id.replace old new) (id.replace old' new')) :
    (i.retarget old new).AlikeBy r (i.retarget old' new') where
  op := rfl
  operand := (Operand.SameBy.retarget_right (Operand.sameBy_of_targets
    (r := fun a b => r (a.replace old new) (b.replace old' new')) h)).retarget_left

/-- A clause in which a boundary is replaced in two ways. -/
lemma ExceptionClause.sameBy_retarget {c : ExceptionClause}
    (tryStart : r (c.tryStart.replace old new) (c.tryStart.replace old new'))
    (tryEnd : ∀ id ∈ c.tryEnd, r (id.replace old new) (id.replace old new'))
    (handlerStart : r (c.handlerStart.replace old new) (c.handlerStart.replace old new'))
    (handlerEnd : ∀ id ∈ c.handlerEnd, r (id.replace old new) (id.replace old new')) :
    (c.retarget old (some new)).SameBy r (c.retarget old (some new')) := by
  have stop {end? : Option InstrId} (h : ∀ id ∈ end?, r (id.replace old new) (id.replace old new')) :
      Option.Rel r (if end? = some old then some new else end?)
        (if end? = some old then some new' else end?) := by
    cases end? with
    | none => exact .none
    | some id =>
      have h := h id rfl
      unfold InstrId.replace at h
      by_cases same : id = old
      · rw [if_pos same, if_pos same] at h
        rw [if_pos (congrArg some same), if_pos (congrArg some same)]
        exact .some h
      · rw [if_neg same, if_neg same] at h
        rw [if_neg (same ∘ Option.some.inj), if_neg (same ∘ Option.some.inj)]
        exact .some h
  exact ⟨rfl, rfl, tryStart, stop tryEnd, handlerStart, stop handlerEnd⟩

/-- The same opcodes with the same operands, where targets correspond by a relation. -/
def AlikeCode (r : InstrId → InstrId → Prop) : List (OpCode × Operand) → List (OpCode × Operand) → Prop :=
  List.Forall₂ fun c c' => c'.1 = c.1 ∧ c.2.SameBy r c'.2

/-- Code that names no instruction is like itself. -/
lemma AlikeCode.of_plain (plain : ∀ c ∈ code, c.2.targets = []) : AlikeCode r code code :=
  List.forall₂_same.2 fun c hc => ⟨rfl, Operand.sameBy_self (plain c hc)⟩

/-- Code that is alike is so under numbers. -/
lemma AlikeCode.number {n n' : Nat} (h : AlikeCode r code code') :
    List.Forall₂ (Instruction.AlikeBy r) (InstructionList.number n code)
      (InstructionList.number n' code') := by
  induction h generalizing n n' with
  | nil => exact .nil
  | cons same _ ih => exact .cons ⟨same.1, same.2⟩ ih

namespace Weaving

variable {p q w : Weaving} {t tp tq tpq tqp : MethodDeclaration} {b b' : MethodBody}
  {verify verify' : Bool}

/-! ## What does not depend on the body -/

lemma loads_onto {result : Option UInt16} {position : Nat} {params : List Parameter} :
    (w.onto { t with body := some b }).loads result position params
      = (w.onto t).loads result position params := by
  induction params generalizing position with
  | nil => rfl
  | cons param params ih =>
    unfold loads
    simp only [ih]
    rfl

lemma epilogue_onto : (w.onto { t with body := some b }).epilogue = (w.onto t).epilogue := by
  unfold epilogue
  rw [loads_onto]
  rfl

lemma prologue_onto {result : Option UInt16} {first : InstrId} :
    (w.onto { t with body := some b }).prologue result first = (w.onto t).prologue result first := by
  unfold prologue
  rw [loads_onto]
  rfl

/-- Prologues that lead to different instructions differ in that only. -/
lemma alikeCode_prologue {result : Option UInt16} {first first' : InstrId} {code code' : Code}
    (written : w.prologue result first = .ok code) (written' : w.prologue result first' = .ok code')
    (h : r first first') : AlikeCode r code code' := by
  obtain ⟨loads, loaded, rfl⟩ := prologue_eq_ok written
  obtain ⟨loads', loaded', rfl⟩ := prologue_eq_ok written'
  cases loaded.symm.trans loaded'
  refine List.rel_append (AlikeCode.of_plain fun c hc => ?_) (.cons ⟨rfl, rfl⟩ ?_)
  · cases List.mem_append.1 hc with
    | inl prepares => exact ((plain_preparation w result true 0).1 c prepares).targets
    | inr load => exact ((plain_loads loaded).2 c load).targets
  · unfold dispatch
    split_ifs
    · refine .cons ⟨rfl, h⟩ (AlikeCode.of_plain fun c hc => ?_)
      cases List.mem_append.1 hc with
      | inl load =>
        obtain ⟨slot, _, rfl⟩ := Option.map_eq_some_iff.1 (Option.mem_toList.1 load)
        exact (ShortForm.plain_loadLocal slot).targets
      | inr ret =>
        cases List.mem_singleton.1 ret
        rfl
    · exact .nil
    · exact .cons ⟨rfl, rfl⟩ .nil

/-! ## What a weave does to a body -/

/-- The second body is the first one with the hook ahead. -/
structure FrontedBy (w : Weaving) (b b' : MethodBody) (first : Instruction) (code : Code) : Prop where
  head : b.instructions.first? = some first
  written : w.prologue (if w.hasResult then some (UInt16.ofNat b.locals.length) else none) first.id
    = .ok code
  fronted : b.instructions.Fronted b'.instructions code
  clauses : b'.clauses = b.clauses
  locals : b'.locals = b.locals ++ if w.hasResult then [w.target.ret] else []
  initLocals : b'.initLocals = (b.initLocals || w.hasResult)
  maxStack : ∃ m, b'.instructions.maxStack b'.handlerEntries w.target.returnsValue = .ok m
    ∧ b'.maxStack = UInt16.ofNat m

/-- The second body is the first one with the hook behind. -/
structure EndedBy (w : Weaving) (b b' : MethodBody) (pre : List Instruction) (last : Instruction)
    (code : Code) : Prop where
  written : w.epilogue = .ok code
  ended : b.instructions.Ended b'.instructions pre last code
  clauses : b'.clauses = b.clauses.map (·.retarget last.id (some ⟨b.instructions.nextId⟩))
  locals : b'.locals = b.locals
  initLocals : b'.initLocals = b.initLocals
  maxStack : ∃ m, b'.instructions.maxStack b'.handlerEntries w.target.returnsValue = .ok m
    ∧ b'.maxStack = UInt16.ofNat m

lemma frontedBy_of_weave (h : w.weave verify = .ok t) (kind : w.request.kind = .before)
    (there : w.target.body = some b) :
    ∃ b' first code, t = { w.target with body := some b' } ∧ w.FrontedBy b b' first code := by
  obtain ⟨b', rfl, made, _⟩ := body_of_weave_eq_ok h
  obtain ⟨body, first, result, code, found, head, written, items, clauses, _, grown, m, computed,
    depth, initLocals⟩ := of_bodyBefore_eq_ok (made kind)
  cases there.symm.trans found
  refine ⟨b', first, code, rfl, head, ?_, ⟨items⟩, clauses, ?_, initLocals, m, computed, depth⟩
  · obtain ⟨has, rfl, _⟩ | ⟨has, _, rfl, _⟩ := grown
    · rwa [if_neg (Bool.eq_false_iff.1 has)]
    · rwa [if_pos has]
  · obtain ⟨has, _, same⟩ | ⟨has, _, _, more⟩ := grown
    · rw [if_neg (Bool.eq_false_iff.1 has), List.append_nil, same]
    · rw [if_pos has, more]

lemma endedBy_of_weave (h : w.weave verify = .ok t) (kind : w.request.kind = .after)
    (there : w.target.body = some b) :
    ∃ b' pre last code, t = { w.target with body := some b' } ∧ w.EndedBy b b' pre last code := by
  obtain ⟨b', rfl, _, made⟩ := body_of_weave_eq_ok h
  obtain ⟨body, pre, last, code, found, split, _, written, items, clauses, locals, m, computed, depth,
    initLocals⟩ := of_bodyAfter_eq_ok (made kind)
  cases there.symm.trans found
  have inhabited : code ≠ [] := by
    obtain ⟨loads, _, rfl⟩ := epilogue_eq_ok written
    simp
  exact ⟨b', pre, last, code, rfl, written, ⟨split, items, inhabited⟩, clauses, locals, initLocals, m,
    computed, depth⟩

lemma frontedBy_onto {first : Instruction} {code : Code} {b₀ : MethodBody} :
    (w.onto { t with body := some b₀ }).FrontedBy b b' first code
      ↔ (w.onto t).FrontedBy b b' first code := by
  constructor
  · rintro ⟨head, written, fronted, clauses, locals, initLocals, maxStack⟩
    exact ⟨head, prologue_onto.symm.trans written, fronted, clauses, locals, initLocals, maxStack⟩
  · rintro ⟨head, written, fronted, clauses, locals, initLocals, maxStack⟩
    exact ⟨head, prologue_onto.trans written, fronted, clauses, locals, initLocals, maxStack⟩

lemma endedBy_onto {pre : List Instruction} {last : Instruction} {code : Code} {b₀ : MethodBody} :
    (w.onto { t with body := some b₀ }).EndedBy b b' pre last code
      ↔ (w.onto t).EndedBy b b' pre last code := by
  constructor
  · rintro ⟨written, ended, clauses, locals, initLocals, maxStack⟩
    exact ⟨epilogue_onto.symm.trans written, ended, clauses, locals, initLocals, maxStack⟩
  · rintro ⟨written, ended, clauses, locals, initLocals, maxStack⟩
    exact ⟨epilogue_onto.trans written, ended, clauses, locals, initLocals, maxStack⟩

/-! ## Both orders -/

/-- A target, and what becomes of it under one hook before and one after it, in both orders. -/
structure BothOrders (p q : Weaving) (b bp bpq bq bqp : MethodBody) (first first' last : Instruction)
    (pre : List Instruction) (code code' epilogue : Code) : Prop where
  ahead : p.FrontedBy b bp first code
  thenBehind : q.EndedBy bp bpq (InstructionList.number b.instructions.nextId code ++ pre) last epilogue
  behind : q.EndedBy b bq pre last epilogue
  thenAhead : p.FrontedBy bq bqp first' code'

namespace BothOrders

variable {bp bpq bq bqp : MethodBody} {first first' last last' : Instruction}
  {pre pre' : List Instruction} {code code' epilogue epilogue' : Code}

/-- The last instruction is the same with code in front. -/
lemma of_orders (ahead : p.FrontedBy b bp first code) (thenBehind : q.EndedBy bp bpq pre' last' epilogue')
    (behind : q.EndedBy b bq pre last epilogue) (thenAhead : p.FrontedBy bq bqp first' code') :
    BothOrders p q b bp bpq bq bqp first first' last pre code code' epilogue := by
  cases thenBehind.written.symm.trans behind.written
  have split : pre' ++ [last']
      = InstructionList.number b.instructions.nextId code ++ pre ++ [last] := by
    rw [← thenBehind.ended.was, ahead.fronted.items, behind.ended.was, List.append_assoc]
  obtain ⟨rfl, same⟩ := List.append_inj' split rfl
  cases same
  exact ⟨ahead, thenBehind, behind, thenAhead⟩

variable (h : BothOrders p q b bp bpq bq bqp first first' last pre code code' epilogue)
include h

lemma nextId_lt_ahead : b.instructions.nextId < bp.instructions.nextId := by
  obtain ⟨loads, _, rfl⟩ := prologue_eq_ok h.ahead.written
  obtain ⟨c, others, same⟩ := List.exists_cons_of_ne_nil
    (l := p.preparation _ ++ loads ++ p.call :: p.dispatch _ first.id) (by simp)
  have listed := List.mem_of_getElem? (h.ahead.fronted.getElem?_front (k := 0) (c := c) (by rw [same]; rfl))
  exact bp.instructions.below _ listed

lemma nextId_lt_behind : b.instructions.nextId < bq.instructions.nextId := by
  obtain ⟨c, others, same⟩ := List.exists_cons_of_ne_nil h.behind.ended.inhabited
  have listed := List.mem_of_getElem? (h.behind.ended.holds 0 c (by rw [same]; rfl))
  exact bq.instructions.below _ listed

/-- The target starts in both orders with what was its first instruction, or the code that took the
place of that one. -/
lemma first_eq : first'.id = first.id.replace last.id ⟨b.instructions.nextId⟩ := by
  have head : b.instructions.items.head? = some first := h.ahead.head
  have head' : bq.instructions.items.head? = some first' := h.thenAhead.head
  rw [h.behind.ended.was] at head
  rw [h.behind.ended.items] at head'
  cases pre with
  | nil =>
    obtain ⟨c, others, same⟩ := List.exists_cons_of_ne_nil h.behind.ended.inhabited
    rw [same] at head'
    cases head
    cases head'
    exact (InstrId.replace_self ..).symm
  | cons i pre =>
    cases head
    cases head'
    have other := h.behind.ended.ne_of_lt (k := 0) (i := first) (by rw [h.behind.ended.was]; rfl)
      (Nat.succ_pos _)
    exact (InstrId.replace_of_ne other).symm

/-- Code ahead of the target is as long in both orders. -/
lemma alikeCode (r : InstrId → InstrId → Prop) (starts : r first.id first'.id) :
    AlikeCode r code code' := by
  have written' := h.thenAhead.written
  rw [h.behind.locals] at written'
  exact alikeCode_prologue h.ahead.written written' starts

/-- What was handed out before names the same positions in both orders. -/
lemma namesAlike {id : InstrId} (old : id.val < b.instructions.nextId) :
    bpq.instructions.NamesAlike bqp.instructions (id.replace last.id ⟨bp.instructions.nextId⟩)
      (id.replace last.id ⟨b.instructions.nextId⟩) := by
  have older : (id.replace last.id ⟨b.instructions.nextId⟩).val < bq.instructions.nextId := by
    unfold InstrId.replace
    split_ifs
    · exact h.nextId_lt_behind
    · exact old.trans h.nextId_lt_behind
  have length : code.length = code'.length :=
    (h.alikeCode (fun _ _ => True) trivial).length_eq
  unfold InstructionList.NamesAlike
  rw [h.thenBehind.ended.position?_eq (old.trans h.nextId_lt_ahead), h.ahead.fronted.position?_eq old,
    h.thenAhead.fronted.position?_eq older, h.behind.ended.position?_eq old, length]

/-- The code is alike in both orders, piece by piece. -/
lemma alike_instructions (named : b.HandedOut) : bpq.instructions.Alike bqp.instructions := by
  unfold InstructionList.Alike
  have first_lt : first.id.val < b.instructions.nextId :=
    b.instructions.below _ (List.mem_of_mem_head? h.ahead.head)
  rw [h.thenBehind.ended.items, h.thenAhead.fronted.items, h.behind.ended.items, List.map_append,
    ← List.append_assoc]
  refine List.rel_append (List.rel_append ?_ ?_) ?_
  · have starts := h.namesAlike first_lt
    rw [← h.first_eq] at starts
    have alike := h.alikeCode (fun a b => bpq.instructions.NamesAlike bqp.instructions
      (a.replace last.id ⟨bp.instructions.nextId⟩) b) starts
    exact List.forall₂_map_left_iff.2
      (alike.number.imp fun i j same => ⟨same.op, same.operand.retarget_left⟩)
  · refine List.forall₂_map_left_iff.2 (List.forall₂_map_right_iff.2 (List.forall₂_same.2 ?_))
    intro i hi
    have listed : i ∈ b.instructions.items := h.behind.ended.was ▸ List.mem_append_left _ hi
    exact Instruction.alikeBy_retarget fun id mem => h.namesAlike (named.targets i listed id mem)
  · exact (AlikeCode.of_plain (targets_epilogue h.behind.written)).number

lemma alike_clauses (named : b.HandedOut) :
    List.Forall₂ (ExceptionClause.SameBy (bpq.instructions.NamesAlike bqp.instructions)) bpq.clauses
      bqp.clauses := by
  rw [h.thenBehind.clauses, h.ahead.clauses, h.thenAhead.clauses, h.behind.clauses]
  refine List.forall₂_map_left_iff.2 (List.forall₂_map_right_iff.2 (List.forall₂_same.2 ?_))
  intro clause mem
  obtain ⟨tryStart, tryEnd, handlerStart, handlerEnd⟩ := named.clauses clause mem
  exact ExceptionClause.sameBy_retarget (h.namesAlike tryStart)
    (fun id mem => h.namesAlike (tryEnd id mem)) (h.namesAlike handlerStart)
    fun id mem => h.namesAlike (handlerEnd id mem)

/-- The bodies are alike. -/
theorem alike (returns : p.target.returnsValue = q.target.returnsValue) (named : b.HandedOut) :
    bpq.Alike bqp := by
  have code := h.alike_instructions named
  have clauses := h.alike_clauses named
  obtain ⟨m, computed, depth⟩ := h.thenBehind.maxStack
  obtain ⟨m', computed', depth'⟩ := h.thenAhead.maxStack
  refine ⟨?_, ?_, ?_, code, clauses⟩
  · obtain ⟨enters, enters'⟩ := MethodBody.enters_of_clauses clauses
    have greatest := code.acts.maxStack_eq ?_ enters enters' computed
    · rw [← returns, computed'] at greatest
      rw [depth, depth', Except.ok.inj greatest]
    obtain ⟨c, others, same⟩ := List.exists_cons_of_ne_nil h.thenBehind.ended.inhabited
    unfold InstructionList.isEmpty
    rw [h.thenBehind.ended.items, same]
    simp [InstructionList.number]
  · rw [h.thenBehind.initLocals, h.ahead.initLocals, h.thenAhead.initLocals, h.behind.initLocals]
  · rw [h.thenBehind.locals, h.ahead.locals, h.thenAhead.locals, h.behind.locals]

end BothOrders

/-- A hook before and one after a target may be woven in either order: if both weaves go well in both
orders, the bodies differ in the identities of their instructions only. -/
theorem weave_commutes (before : p.request.kind = .before) (after : q.request.kind = .after)
    (there : t.body = some b) (named : b.HandedOut)
    (hp : (p.onto t).weave verify = .ok tp) (hpq : (q.onto tp).weave verify' = .ok tpq)
    (hq : (q.onto t).weave verify' = .ok tq) (hqp : (p.onto tq).weave verify = .ok tqp) :
    ∃ c c', tpq = { t with body := some c } ∧ tqp = { t with body := some c' } ∧ c.Alike c' := by
  obtain ⟨bp, first, code, rfl, ahead⟩ := frontedBy_of_weave hp before there
  obtain ⟨bpq, _, _, _, rfl, thenBehind⟩ := endedBy_of_weave hpq after rfl
  obtain ⟨bq, pre, last, epilogue, rfl, behind⟩ := endedBy_of_weave hq after there
  obtain ⟨bqp, _, _, rfl, thenAhead⟩ := frontedBy_of_weave hqp before rfl
  have both := BothOrders.of_orders ahead (endedBy_onto.1 thenBehind) behind (frontedBy_onto.1 thenAhead)
  exact ⟨bpq, bqp, rfl, rfl, both.alike rfl named⟩

/-! ## Examples -/

namespace Example

/-- Takes nothing and says whether to go on. -/
def ask : MethodRef :=
  ⟨⟨"Patches", "", "Hooks"⟩, "Ask", ⟨false, .prim .bool, []⟩⟩

/-- The question ahead of the visit. -/
def asking : Weaving :=
  ⟨{}, ⟨"Shop", "", "Door"⟩, visit, ⟨⟨"Shop", "", "Door"⟩, "Visit", ask, [], true, .before, []⟩⟩

lemma weave_asking (first : Instruction) (head : b.instructions.first? = some first)
    (edited : b.apply (MethodBody.editInstructions ([(.call, .method ask),
      (.brtrueShort, .target first.id), (.ret, .none)].forM fun c =>
        discard (InstructionList.insertBefore first.id c.1 c.2))) = .ok b')
    (inhabited : b'.instructions.isEmpty = false)
    (deep : b'.instructions.maxStackWithin 20 b'.handlerEntries false = some b'.maxStack.toNat) :
    (asking.onto (visitOf b)).weave true = .ok (visitOf b') := by
  have checked : (asking.onto (visitOf b)).check = .ok () := rfl
  refine bind_eq_ok.2 ⟨(), checked, bind_eq_ok.2 ⟨b', bind_eq_ok.2 ⟨b, rfl, ?_⟩, rfl⟩⟩
  simp only [head]
  refine bind_eq_ok.2 ⟨(none, b), rfl, bind_eq_ok.2 ⟨_, rfl, bind_eq_ok.2 ⟨b', edited, ?_⟩⟩⟩
  rw [(asking.onto (visitOf b)).balanced_of_within 20 inhabited deep, UInt16.ofNat_toNat]

/-- The visit with the question ahead, and its branch to an identity. -/
def askedBody (long : InstrId) : MethodBody where
  maxStack := 1
  initLocals := false
  locals := []
  instructions := {
    items := [⟨⟨4⟩, .call, .method ask⟩, ⟨⟨5⟩, .brtrueShort, .target ⟨0⟩⟩, ⟨⟨6⟩, .ret, .none⟩,
      ⟨⟨0⟩, .ldarg0, .none⟩, ⟨⟨1⟩, .brtrueShort, .target long⟩, ⟨⟨2⟩, .ret, .none⟩, ⟨⟨3⟩, .ret, .none⟩]
    nextId := 7
    nodup := show [(⟨4⟩ : InstrId), ⟨5⟩, ⟨6⟩, ⟨0⟩, ⟨1⟩, ⟨2⟩, ⟨3⟩].Nodup by decide
    below := by simp }
  clauses := []

/-- The same with the greeting behind. -/
def askedFirstBody (long : InstrId) : MethodBody where
  maxStack := 1
  initLocals := false
  locals := []
  instructions := {
    items := [⟨⟨4⟩, .call, .method ask⟩, ⟨⟨5⟩, .brtrueShort, .target ⟨0⟩⟩, ⟨⟨6⟩, .ret, .none⟩,
      ⟨⟨0⟩, .ldarg0, .none⟩, ⟨⟨1⟩, .brtrueShort, .target long⟩, ⟨⟨2⟩, .ret, .none⟩,
      ⟨⟨7⟩, .call, .method greet⟩, ⟨⟨8⟩, .ret, .none⟩]
    nextId := 9
    nodup := show [(⟨4⟩ : InstrId), ⟨5⟩, ⟨6⟩, ⟨0⟩, ⟨1⟩, ⟨2⟩, ⟨7⟩, ⟨8⟩].Nodup by decide
    below := by simp }
  clauses := []

/-- The visit with the greeting behind, and then the question ahead. -/
def greetedFirstBody : MethodBody where
  maxStack := 1
  initLocals := false
  locals := []
  instructions := {
    items := [⟨⟨6⟩, .call, .method ask⟩, ⟨⟨7⟩, .brtrueShort, .target ⟨0⟩⟩, ⟨⟨8⟩, .ret, .none⟩,
      ⟨⟨0⟩, .ldarg0, .none⟩, ⟨⟨1⟩, .brtrueShort, .target ⟨4⟩⟩, ⟨⟨2⟩, .ret, .none⟩,
      ⟨⟨4⟩, .call, .method greet⟩, ⟨⟨5⟩, .ret, .none⟩]
    nextId := 9
    nodup := by decide
    below := by decide }
  clauses := []

lemma weave_asking_greeted :
    (asking.onto (visitOf greetedBody)).weave true = .ok (visitOf greetedFirstBody) :=
  weave_asking ⟨⟨0⟩, .ldarg0, .none⟩ rfl (by decide +kernel) rfl (by decide +kernel)

/-- The question and the greeting come in either order. -/
theorem ask_and_greet :
    asking.request.kind = .before ∧ greeting.request.kind = .after ∧ visit.body = some visitBody
      ∧ visitBody.HandedOut
      ∧ (asking.onto visit).weave true = .ok (visitOf (askedBody ⟨3⟩))
      ∧ (greeting.onto (visitOf (askedBody ⟨3⟩))).weave true = .ok (visitOf (askedFirstBody ⟨7⟩))
      ∧ (greeting.onto visit).weave true = .ok (visitOf greetedBody)
      ∧ (asking.onto (visitOf greetedBody)).weave true = .ok (visitOf greetedFirstBody)
      ∧ (askedFirstBody ⟨7⟩).Alike greetedFirstBody := by
  have named : visitBody.HandedOut := ⟨by decide, by decide⟩
  have asked : (asking.onto visit).weave true = .ok (visitOf (askedBody ⟨3⟩)) :=
    weave_asking ⟨⟨0⟩, .ldarg0, .none⟩ rfl (by decide +kernel) rfl (by decide +kernel)
  have askedFirst :
      (greeting.onto (visitOf (askedBody ⟨3⟩))).weave true = .ok (visitOf (askedFirstBody ⟨7⟩)) :=
    weave_greeting_onto ⟨⟨3⟩, .ret, .none⟩ rfl (by decide +kernel) rfl (by decide +kernel)
  obtain ⟨c, c', same, same', alike⟩ :=
    weave_commutes rfl rfl rfl named asked askedFirst weave_greeting weave_asking_greeted
  cases same
  cases same'
  exact ⟨rfl, rfl, rfl, named, asked, askedFirst, weave_greeting, weave_asking_greeted, alike⟩

/-- The visit with a branch to an instruction that is not there. -/
def strayBody : MethodBody where
  maxStack := 1
  initLocals := false
  locals := []
  instructions := .ofCode [(.ldarg0, .none), (.brtrueShort, .target ⟨4⟩), (.ret, .none), (.ret, .none)]
  clauses := []

/-- The branch leads to the question if that comes first, and to the greeting otherwise. -/
theorem order_seen_by_stray :
    asking.request.kind = .before ∧ greeting.request.kind = .after
      ∧ (asking.onto (visitOf strayBody)).weave true = .ok (visitOf (askedBody ⟨4⟩))
      ∧ (greeting.onto (visitOf (askedBody ⟨4⟩))).weave true = .ok (visitOf (askedFirstBody ⟨4⟩))
      ∧ (greeting.onto (visitOf strayBody)).weave true = .ok (visitOf greetedBody)
      ∧ (asking.onto (visitOf greetedBody)).weave true = .ok (visitOf greetedFirstBody)
      ∧ ¬ (askedFirstBody ⟨4⟩).Alike greetedFirstBody := by
  refine ⟨rfl, rfl, ?_, ?_, ?_, weave_asking_greeted, fun alike => ?_⟩
  · exact weave_asking ⟨⟨0⟩, .ldarg0, .none⟩ rfl (by decide +kernel) rfl (by decide +kernel)
  · exact weave_greeting_onto ⟨⟨3⟩, .ret, .none⟩ rfl (by decide +kernel) rfl (by decide +kernel)
  · exact weave_greeting_onto ⟨⟨3⟩, .ret, .none⟩ rfl (by decide +kernel) rfl (by decide +kernel)
  · obtain ⟨j, there, same⟩ := forall₂_getElem? (k := 4) alike.code rfl
    cases there
    have target : (askedFirstBody ⟨4⟩).instructions.position? ⟨4⟩
        = greetedFirstBody.instructions.position? ⟨4⟩ := same.operand
    exact absurd target (by decide)

end Example

end Weaving
end HookWeave

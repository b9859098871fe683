import HookWeave.Proofs.Weaving.After
import HookWeave.Proofs.Weaving.Before
import HookWeave.Proofs.Weaving.Refusals
import HookWeave.Proofs.Weaving.Returns

/-!
# Depths at returns

A body returns exactly if every path arrives at a return with the value that is returned on the
stack, and with nothing else (`MethodBody.ReturnsExactly`). A weave keeps this or is refused, if the
hook takes all that is loaded for it and gives no value behind a target that gives none
(`Weaving.weave_returns_or_refuses`): paths through the old instructions arrive as they did
(`InstructionList.Fronted.of_arrives`, `InstructionList.Ended.of_arrives`), and behind the call there
is what the hook gives (`InstructionList.Balanced.behind_call`). That the greatest depth is computed
does not suffice, as a return may leave values on the stack (`Example.answered_chime_leaves`).
-/

namespace HookWeave

/-- Every path of control arrives at a return with what is returned on the stack, and no more. -/
def MethodBody.ReturnsExactly (b : MethodBody) (returnsValue : Bool) : Prop :=
  ∀ ⦃p d i⦄, b.instructions.Arrives {e | e ∈ b.handlerEntries} returnsValue p d →
    b.instructions.items[p]? = some i → i.op = .ret → d = returnsValue.toNat

namespace InstructionList

variable {l l' : InstructionList} {pre : List Instruction} {last : Instruction}
  {code : List (OpCode × Operand)} {entries : List (InstrId × Nat)} {returnsValue : Bool}
  {depth : Nat → Option Nat} {p d : Nat}

/-- A path arrives at a position with the depth that there is. -/
lemma Balanced.of_arrives (b : l.Balanced returnsValue entries depth)
    (h : l.Arrives {e | e ∈ entries} returnsValue p d) : depth p = some d := by
  induction h with
  | first => exact b.first
  | entry mem position =>
    obtain ⟨p', position', known⟩ := b.entry _ mem
    cases position.symm.trans position'
    exact known
  | follow _ here takes _ goes known =>
    obtain ⟨effect, next, takes', _, listed, arrivals⟩ := b.allows known here
    cases takes.symm.trans takes'
    exact arrivals ⟨_, _⟩ ((StackDepth.mem_successors_iff listed).2 ⟨goes, rfl⟩)

/-- Behind a call that takes all that was loaded for it there is what it gives. -/
lemma Balanced.behind_call {front rest : List (OpCode × Operand)} {m : MethodRef} {n loaded : Nat}
    (b : l.Balanced returnsValue entries depth)
    (holds : l.Holds p n (front ++ (.call, .method m) :: rest)) (plain : ∀ c ∈ front, Plain c)
    (known : depth p = some d) (lifts : Lifts returnsValue front d loaded)
    (takes : loaded ≤ m.sig.argCount) :
    depth (p + front.length + 1) = some (!m.sig.ret.isVoid).toNat := by
  have before : depth (p + front.length) = some loaded := by
    refine b.behind (fun {k c} at' => ⟨⟨n + k⟩, holds k c ?_⟩) plain known lifts
    rw [List.getElem?_append_left (List.getElem?_eq_some_iff.1 at').1]
    exact at'
  have call := holds.behind 0 (.call, .method m) rfl
  obtain ⟨effect, next, same, enough, _⟩ := b.allows before call
  cases same
  rw [b.next before call rfl rfl, Nat.le_antisymm enough takes, Nat.sub_self, Nat.zero_add]

/-- Paths through old instructions arrive as they did in the list without the code in front, if the
code leaves nothing on the stack and only names the first of them. -/
lemma Fronted.of_arrives (h : l.Fronted l' code) (b : l'.Balanced returnsValue entries depth)
    (leaves : depth code.length = some 0)
    (named : ∀ c ∈ code, ∀ id ∈ c.2.targets, l.position? id = some 0)
    (arrived : l'.Arrives {e | e ∈ entries} returnsValue (code.length + p) d) :
    l.Arrives {e | e ∈ entries} returnsValue p d := by
  generalize there : code.length + p = q at arrived
  induction arrived generalizing p with
  | first =>
    obtain ⟨_, rfl⟩ := Nat.add_eq_zero_iff.1 there
    exact .first
  | entry mem position =>
    rw [← there] at position
    exact .entry mem (h.position?_behind.1 position)
  | @follow q' q d i effect before here takes enough goes ih =>
    cases Nat.lt_or_ge q' code.length with
    | inl front =>
      -- From the code control can only come to the first of the old instructions.
      have at' := List.getElem?_eq_getElem front
      cases here.symm.trans (h.getElem?_front at')
      have first : p = 0 := by
        cases goes with
        | next => omega
        | target _ mem position =>
          have position' := named _ (List.mem_of_getElem? at') _ mem
          rw [← there] at position
          exact Option.some.inj ((h.position?_behind.1 position).symm.trans position')
      cases first
      cases there
      have known := b.of_arrives (.follow before here takes enough goes)
      rw [← Option.some.inj (leaves.symm.trans known)]
      exact .first
    | inr behind =>
      obtain ⟨p', rfl⟩ := Nat.exists_eq_add_of_le behind
      rw [← there] at goes
      rw [h.getElem?_behind] at here
      exact .follow (ih rfl) here takes enough (h.of_continues goes)

/-- Paths to old instructions, and to the code in place of the last, arrive as they did. Paths into
the code come from where it starts. -/
lemma Ended.of_arrives {entries' : List (InstrId × Nat)} (h : l.Ended l' pre last code)
    (listed : ∀ i ∈ l.items, ∀ id ∈ i.targets, l.contains id = true)
    (entered : ∀ e' ∈ entries', ∃ e ∈ entries, l.contains e.1 = true
      ∧ e' = (e.1.replace last.id ⟨l.nextId⟩, e.2))
    (plain : ∀ c ∈ code, c.2.targets = [])
    (arrived : l'.Arrives {e | e ∈ entries'} returnsValue p d) :
    (p ≤ pre.length ∧ l.Arrives {e | e ∈ entries} returnsValue p d)
      ∨ (pre.length < p ∧ ∃ d₀, l.Arrives {e | e ∈ entries} returnsValue pre.length d₀
        ∧ l'.Arrives {e | e ∈ entries'} returnsValue pre.length d₀) := by
  induction arrived with
  | first => exact .inl ⟨Nat.zero_le _, .first⟩
  | entry mem position =>
    obtain ⟨e, he, there, rfl⟩ := entered _ mem
    have was := h.of_position? there position
    exact .inl ⟨h.le_of_position? was, .entry (e := e) he was⟩
  | @follow p q d i effect before here takes enough goes ih =>
    cases Nat.lt_or_ge p pre.length with
    | inl old =>
      -- From an old instruction control goes on as it did.
      obtain ⟨_, was⟩ | ⟨behind, _⟩ := ih
      · rw [h.getElem?_before old] at here
        obtain ⟨i, at', rfl⟩ := Option.map_eq_some_iff.1 here
        rw [i.stackEffect_retarget] at takes
        have on := h.of_continues (listed i (List.mem_of_getElem? at')) goes
        exact .inl ⟨h.le_of_continues old on, .follow (i := i) was at' takes enough on⟩
      · exact absurd old (Nat.lt_asymm behind)
    | inr behind =>
      -- From one of the code it goes on to the next.
      obtain ⟨k, c, rfl, at', rfl⟩ := h.of_behind behind here
      have next := goes.next_of_plain (plain _ (List.mem_of_getElem? at'))
      refine .inr ⟨by omega, ?_⟩
      obtain ⟨start, was⟩ | ⟨_, arrivals⟩ := ih
      · cases Nat.le_zero.1 (Nat.add_le_add_iff_left.1 start)
        exact ⟨d, was, before⟩
      · exact arrivals

end InstructionList

namespace Weaving

variable {w : Weaving} {target' : MethodDeclaration} {b b' : MethodBody}

/-- The hook takes from the stack at least what is loaded for its parameters. -/
def TakesLoads (w : Weaving) : Prop :=
  w.request.hookParams.length ≤ w.request.hook.sig.argCount

/-- Behind a target that gives no value the hook gives none. -/
def GivesNoMore (w : Weaving) : Prop :=
  w.request.kind = .after → w.target.returnsValue = false → w.request.hook.sig.ret.isVoid = true

/-- A hook that is checked gives what its target gives. -/
lemma givesNoMore_of_check (h : w.check = .ok ()) : w.GivesNoMore := by
  intro after none
  obtain ⟨_, _, _, result⟩ := of_check_eq_ok h
  unfold checkReturn at result
  split_ifs at result with differ
  · cases result
  have same : w.request.hook.sig.ret = w.target.ret := by
    by_contra other
    exact differ ⟨after, other⟩
  rw [same]
  simpa [MethodDeclaration.returnsValue] using none

/-! ## Ahead of the target -/

variable {result : Option UInt16} {first : InstrId} {c : OpCode × Operand} {k : Nat}

/-- The only return in front of the target is the last instruction of the code behind a call that
may skip the target. -/
lemma ret_dispatch (at' : (w.dispatch result first)[k]? = some c) (returns : c.1 = .ret) :
    w.maySkip = true ∧ k = 1 + result.isSome.toNat := by
  unfold dispatch at at'
  split_ifs at at' with skips void
  · refine ⟨skips, ?_⟩
    match result, k with
    | _, 0 =>
      cases at'
      cases returns
    | none, 1 | some _, 2 => rfl
    | some slot, 1 =>
      cases at'
      have flow := (ShortForm.plain_loadLocal slot).flow
      rw [returns] at flow
      cases flow
    | none, k + 2 | some _, k + 3 => cases at'
  · cases at'
  · match k with
    | 0 =>
      cases at'
      cases returns
    | k + 1 => cases at'

/-- The only return of the prologue is the one at which the target is skipped. -/
lemma ret_prologue {front : Code} (plain : ∀ c ∈ front, Plain c)
    (at' : (front ++ w.call :: w.dispatch result first)[k]? = some c) (returns : c.1 = .ret) :
    w.maySkip = true ∧ k = front.length + 1 + 1 + result.isSome.toNat := by
  have behind : front.length ≤ k := by
    by_contra inside
    rw [List.getElem?_append_left (Nat.lt_of_not_le inside)] at at'
    have flow := (plain c (List.mem_of_getElem? at')).flow
    rw [returns] at flow
    cases flow
  obtain ⟨n, rfl⟩ := Nat.exists_eq_add_of_le behind
  rw [List.getElem?_append_right behind, Nat.add_sub_cancel_left] at at'
  match n with
  | 0 =>
    cases at'
    cases returns
  | n + 1 =>
    obtain ⟨skips, rfl⟩ := ret_dispatch at' returns
    exact ⟨skips, by omega⟩

/-- Behind the code that does what the hook's result asks for the stack is empty. At its return, if it
has one, there is the result. -/
lemma depth_dispatch {l : InstructionList} {entries : List (InstrId × Nat)} {returnsValue : Bool}
    {depth : Nat → Option Nat} {p n : Nat} (b : l.Balanced returnsValue entries depth)
    (holds : l.Holds p n (w.dispatch result first))
    (known : depth p = some (!w.request.hook.sig.ret.isVoid).toNat)
    (behind : l.position? first = some (p + (w.dispatch result first).length)) :
    depth (p + (w.dispatch result first).length) = some 0
      ∧ (w.maySkip = true → depth (p + 1 + result.isSome.toNat) = some result.isSome.toNat) := by
  by_cases skips : w.maySkip = true
  · rw [isVoid_of_maySkip skips] at known
    rw [dispatch_maySkip _ _ skips] at holds behind ⊢
    have branch := holds 0 (.brtrueShort, .target first) rfl
    refine ⟨?_, fun _ => ?_⟩
    · obtain ⟨q, position, depth⟩ := b.target known branch rfl (List.mem_cons_self ..)
        (List.mem_singleton_self first)
      cases behind.symm.trans position
      exact depth
    · have next := b.next known branch rfl rfl
      cases result with
      | none => exact next
      | some slot =>
        have load := holds 1 (ShortForm.loadLocal slot) rfl
        refine b.next next load (ShortForm.stackEffect_loadLocal slot returnsValue _) ?_
        show (ShortForm.loadLocal slot).1.info.flow.isTerminal = false
        rw [(ShortForm.plain_loadLocal slot).flow]
        rfl
  · refine ⟨?_, fun asked => absurd asked skips⟩
    by_cases none : w.dispatch result first = []
    · rw [none]
      unfold dispatch at none
      rw [if_neg skips] at none
      by_cases void : w.request.hook.sig.ret.isVoid = true
      · rw [void] at known
        exact known
      · rw [if_neg void] at none
        cases none
    · obtain ⟨drops, value⟩ := Ahead.dispatch_of_not_maySkip none skips
      rw [value] at known
      rw [drops] at holds ⊢
      exact b.next known (holds 0 (.pop, .none) rfl) rfl rfl

/-- Behind the prologue the stack is empty, and at its return, if it has one, there is the result. -/
lemma depth_prologue {l : InstructionList} {entries : List (InstrId × Nat)} {returnsValue : Bool}
    {depth : Nat → Option Nat} {n : Nat} {loads : Code} (b : l.Balanced returnsValue entries depth)
    (holds : l.Holds 0 n (w.preparation result ++ loads ++ w.call :: w.dispatch result first))
    (loaded : w.loads result 0 w.request.hookParams = .ok loads) (takes : w.TakesLoads)
    (behind : l.position? first
      = some (w.preparation result ++ loads ++ w.call :: w.dispatch result first).length) :
    (∀ c ∈ w.preparation result ++ loads, Plain c)
      ∧ depth (w.preparation result ++ loads ++ w.call :: w.dispatch result first).length = some 0
      ∧ (w.maySkip = true →
        depth ((w.preparation result ++ loads).length + 1 + 1 + result.isSome.toNat)
          = some result.isSome.toNat) := by
  obtain ⟨plain, lifts⟩ := plain_preparation w result returnsValue 0
  have plain := List.forall_mem_append.2 ⟨plain, (plain_loads loaded).2⟩
  have called := b.behind_call holds plain b.first (lifts_append lifts (lifts_loads _ loaded))
    ((Nat.zero_add _).symm ▸ takes)
  rw [Nat.zero_add] at called
  have after : l.Holds _ _ ([w.call] ++ w.dispatch result first) := holds.behind
  have after := after.behind
  rw [Nat.zero_add, List.length_singleton] at after
  have size : (w.preparation result ++ loads ++ w.call :: w.dispatch result first).length
      = (w.preparation result ++ loads).length + 1 + (w.dispatch result first).length := by
    simp only [List.length_append, List.length_cons]
    omega
  rw [size] at behind ⊢
  exact ⟨plain, depth_dispatch b after called behind⟩

/-- Where the hook may skip the target, there is a local for the result if there is a result. -/
lemma hasResult_of_maySkip (skips : w.maySkip = true)
    (returns : w.usesResult = true → w.target.returnsValue = true) :
    w.hasResult = w.target.returnsValue := by
  rw [hasResult, skips, Bool.true_and]
  cases uses : w.usesResult with
  | false => rfl
  | true => exact (returns uses).symm

/-- A prefix weave that goes well leaves paths to the target's returns as they were, and its own return
gives what the target gives. -/
lemma returnsExactly_before (h : w.bodyBefore = .ok b') (there : w.target.body = some b)
    (exact : b.ReturnsExactly w.target.returnsValue) (takes : w.TakesLoads) :
    b'.ReturnsExactly w.target.returnsValue := by
  obtain ⟨b₀, first, result, code, there', head, written, items, clauses, returns, extended, m,
    computed, _⟩ := of_bodyBefore_eq_ok h
  cases there.symm.trans there'
  obtain ⟨loads, loaded, rfl⟩ := prologue_eq_ok written
  have fronted : b.instructions.Fronted b'.instructions _ := ⟨items⟩
  have inhabited : b'.instructions.isEmpty = false :=
    fronted.isEmpty_eq (List.isEmpty_eq_false_iff_exists_mem.2 ⟨first, List.mem_of_mem_head? head⟩)
  obtain ⟨depth, balanced⟩ := InstructionList.balanced_of_maxStack computed inhabited
  have same : result.isSome = w.hasResult := by
    obtain ⟨has, rfl, _⟩ | ⟨has, _, rfl, _⟩ := extended
    · exact has.symm
    · exact has.symm
  have start : b.instructions.position? first.id = some 0 :=
    InstructionList.position?_of_first? head
  obtain ⟨plain, leaves, gives⟩ :=
    depth_prologue balanced fronted.holds loaded takes (fronted.position?_behind.2 start)
  intro p d i arrived here isRet
  cases Nat.lt_or_ge p
      (w.preparation result ++ loads ++ w.call :: w.dispatch result first.id).length with
  | inl front =>
    have at' := List.getElem?_eq_getElem front
    cases here.symm.trans (fronted.getElem?_front at')
    obtain ⟨skips, rfl⟩ := ret_prologue plain at' isRet
    cases (gives skips).symm.trans (balanced.of_arrives arrived)
    rw [same, hasResult_of_maySkip skips returns]
  | inr old =>
    obtain ⟨p', rfl⟩ := Nat.exists_eq_add_of_le old
    rw [fronted.getElem?_behind] at here
    have entries : b'.handlerEntries = b.handlerEntries := congrArg (List.map _) clauses
    rw [entries] at balanced arrived
    refine exact (fronted.of_arrives balanced leaves (fun c hc id named => ?_) arrived) here isRet
    rw [eq_of_mem_targets_prologue written hc named]
    exact start

/-! ## Behind the target -/

/-- Handlers are entered at the same depths when the boundaries of clauses move. -/
lemma entered_of_retarget {old new : InstrId} (closed : b.Closed)
    (clauses : b'.clauses = b.clauses.map (·.retarget old (some new))) :
    ∀ e' ∈ b'.handlerEntries, ∃ e ∈ b.handlerEntries,
      b.instructions.contains e.1 = true ∧ e' = (e.1.replace old new, e.2) := by
  intro e' he'
  obtain ⟨c', hc', rfl⟩ := List.mem_map.1 he'
  rw [clauses] at hc'
  obtain ⟨c, hc, rfl⟩ := List.mem_map.1 hc'
  exact ⟨_, List.mem_map_of_mem hc, closed.handlers c hc, rfl⟩

/-- At the return of the epilogue there is what the target returns, if that was so at its start. -/
lemma depth_epilogue {l : InstructionList} {entries : List (InstrId × Nat)} {depth : Nat → Option Nat}
    {p n : Nat} {loads : Code} {i : Instruction} (b : l.Balanced w.target.returnsValue entries depth)
    (holds : l.Holds p n (w.drop ++ loads ++ [w.call, (.ret, .none)]))
    (loaded : w.loads none 0 w.request.hookParams = .ok loads) (takes : w.TakesLoads)
    (gives : w.target.returnsValue = false → w.request.hook.sig.ret.isVoid = true)
    (known : depth p = some w.target.returnsValue.toNat)
    (here : l.items[p + ((w.drop ++ loads).length + 1)]? = some i) (returns : i.op = .ret) :
    depth (p + ((w.drop ++ loads).length + 1)) = some w.target.returnsValue.toNat := by
  have lifted : Lifts w.target.returnsValue (w.drop ++ loads) w.target.returnsValue.toNat
      (w.target.returnsValue.toNat - w.target.returnsValue.toNat + w.request.hookParams.length) :=
    lifts_append lifts_drop (lifts_loads _ loaded)
  rw [Nat.sub_self, Nat.zero_add] at lifted
  have plain := List.forall_mem_append.2 ⟨w.plain_drop, (plain_loads loaded).2⟩
  have called : depth (p + (w.drop ++ loads).length + 1) = _ := b.behind_call holds plain known lifted takes
  rw [Nat.add_assoc] at called
  obtain ⟨effect, _, effects, enough, _⟩ := b.allows called here
  cases (Instruction.stackEffect_ret returns).symm.trans effects
  rw [called]
  refine congrArg some ?_
  cases value : w.target.returnsValue with
  | false =>
    rw [gives value]
    rfl
  | true =>
    rw [value] at enough
    exact Nat.le_antisymm (Bool.toNat_le _) enough

/-- A postfix weave that goes well leaves paths to the target's early returns as they were, and at the
last one there is what the hook gives. -/
lemma returnsExactly_after (h : w.bodyAfter = .ok b') (there : w.target.body = some b)
    (closed : b.Closed) (exact : b.ReturnsExactly w.target.returnsValue) (takes : w.TakesLoads)
    (gives : w.target.returnsValue = false → w.request.hook.sig.ret.isVoid = true) :
    b'.ReturnsExactly w.target.returnsValue := by
  obtain ⟨b₀, pre, last, code, there', was, isRet, written, items, clauses, _, m, computed, _⟩ :=
    of_bodyAfter_eq_ok h
  cases there.symm.trans there'
  have plain := targets_epilogue written
  obtain ⟨loads, loaded, rfl⟩ := epilogue_eq_ok written
  have ended : b.instructions.Ended b'.instructions pre last _ := ⟨was, items, by simp⟩
  obtain ⟨depth, balanced⟩ := InstructionList.balanced_of_maxStack computed ended.isEmpty_eq
  intro p d i arrived here returns
  have comes := ended.of_arrives closed.targets (entered_of_retarget closed clauses) plain arrived
  cases Nat.lt_or_ge p pre.length with
  | inl old =>
    obtain ⟨_, was⟩ | ⟨behind, _⟩ := comes
    · rw [ended.getElem?_before old] at here
      obtain ⟨i, at', rfl⟩ := Option.map_eq_some_iff.1 here
      exact exact was at' returns
    · exact absurd old (Nat.lt_asymm behind)
  | inr behind =>
    obtain ⟨k, c, rfl, at', rfl⟩ := ended.of_behind behind here
    obtain ⟨final, k', rfl, _⟩ := ret_epilogue written at' returns
    obtain ⟨first, _⟩ | ⟨_, d₀, was, arrived₀⟩ := comes
    · exact absurd first (by omega)
    -- The epilogue starts with what the target returns on the stack, and the hook's result replaces it.
    have known := balanced.of_arrives arrived₀
    cases exact was ended.getElem?_last isRet
    have size : k' = (w.drop ++ loads).length := by
      rw [List.length_append, List.length_cons, List.length_singleton] at final
      exact Nat.succ.inj (Nat.succ.inj final)
    subst size
    have left := depth_epilogue balanced ended.holds loaded takes gives known here returns
    exact Option.some.inj ((balanced.of_arrives arrived).symm.trans left)

/-- Weaving a hook leaves a body that returns exactly as one that does. Where the hook is not checked,
this takes that it gives no value behind a target that gives none. -/
lemma returnsExactly_of_weave {verify : Bool} (h : w.weave verify = .ok target')
    (there : w.target.body = some b) (closed : b.Closed)
    (exact : b.ReturnsExactly w.target.returnsValue) (takes : w.TakesLoads)
    (gives : verify = false → w.GivesNoMore) :
    ∃ b', target'.body = some b' ∧ b'.ReturnsExactly w.target.returnsValue := by
  obtain ⟨b', rfl, before, after⟩ := body_of_weave_eq_ok h
  refine ⟨b', rfl, ?_⟩
  cases kind : w.request.kind with
  | before => exact returnsExactly_before (before kind) there exact takes
  | after =>
    have gives : w.GivesNoMore := by
      cases verify with
      | false => exact gives rfl
      | true => exact givesNoMore_of_check (of_weave_eq_ok h).1
    exact returnsExactly_after (after kind) there closed exact takes (gives kind)

/-- No weave unbalances a body that returns exactly, if the hook takes all that is loaded for it, gives
no value behind a target that gives none, and there is room for one more local: the woven body returns
exactly too, or the weave is refused. -/
theorem weave_returns_or_refuses {verify : Bool} (there : w.target.body = some b) (closed : b.Closed)
    (exact : b.ReturnsExactly w.target.returnsValue) (takes : w.TakesLoads)
    (gives : verify = false → w.GivesNoMore) (room : b.locals.length < MethodBody.maxLocals) :
    (∃ target' b', w.weave verify = .ok target' ∧ target'.body = some b'
        ∧ b'.ReturnsExactly w.target.returnsValue)
      ∨ ∃ e, w.weave verify = .error e ∧ e.IsRefusal := by
  cases woven : w.weave verify with
  | ok target' =>
    obtain ⟨b', made, returns⟩ := returnsExactly_of_weave woven there closed exact takes gives
    exact .inl ⟨target', b', rfl, made, returns⟩
  | error e =>
    refine .inr ⟨e, rfl, failsWith_weave (fun b' there' => ?_) e woven⟩
    cases there.symm.trans there'
    exact room

/-! ## An example -/

namespace Example

/-- Gives nothing. -/
def chimeBody : MethodBody :=
  .ofInstructions (.ofCode [(.ret, .none)])

/-- The method with that body. -/
def chime : MethodDeclaration :=
  ⟨"Chime", 0x16, [], .void, [], some chimeBody⟩

/-- Takes nothing and gives a value of the type, if it is one of values. -/
def answer (type : TypeSig) : MethodRef :=
  ⟨⟨"Patches", "", "Hooks"⟩, "Answer", ⟨false, type, []⟩⟩

/-- The answer behind the chime. -/
def answering (type : TypeSig) : Weaving :=
  ⟨{}, ⟨"Shop", "", "Bell"⟩, chime, ⟨⟨"Shop", "", "Bell"⟩, "Chime", answer type, [], true, .after, []⟩⟩

/-- The instructions of the woven chime. -/
def answered (type : TypeSig) : InstructionList where
  items := [⟨⟨1⟩, .call, .method (answer type)⟩, ⟨⟨2⟩, .ret, .none⟩]
  nextId := 3
  nodup := show [(⟨1⟩ : InstrId), ⟨2⟩].Nodup by decide
  below := List.forall_mem_cons.2 ⟨show 1 < 3 by decide, List.forall_mem_singleton.2 (show 2 < 3 by decide)⟩

/-- The body of the woven chime. -/
def answeredBody (type : TypeSig) (depth : UInt16) : MethodBody :=
  ⟨depth, false, [], answered type, []⟩

open StackDepth in
lemma chime_maxStack : chimeBody.instructions.maxStack [] false = .ok 0 := by
  refine bind_eq_ok.2 ⟨[], rfl, bind_eq_ok.2 ⟨⟨#[some 0], 0⟩, ?_, rfl⟩⟩
  exact (explore_unknown (by decide) (by decide) rfl rfl rfl).trans explore_nil

open StackDepth in
lemma silent_maxStack : (answered .void).maxStack [] false = .ok 0 := by
  refine bind_eq_ok.2 ⟨[], rfl, bind_eq_ok.2 ⟨⟨#[some 0, some 0], 0⟩, ?_, rfl⟩⟩
  refine (explore_unknown (by decide) (by decide) rfl rfl rfl).trans ?_
  exact (explore_unknown (by decide) (by decide) rfl rfl rfl).trans explore_nil

open StackDepth in
lemma answered_maxStack : (answered (.prim .int32)).maxStack [] false = .ok 1 := by
  refine bind_eq_ok.2 ⟨[], rfl, bind_eq_ok.2 ⟨⟨#[some 0, some 1], 1⟩, ?_, rfl⟩⟩
  refine (explore_unknown (by decide) (by decide) rfl rfl rfl).trans ?_
  exact (explore_unknown (by decide) (by decide) rfl rfl rfl).trans explore_nil

/-- The weave goes well if the greatest depth is computed, whatever the answer is. -/
lemma weave_answering {type : TypeSig} {m : Nat} (computed : (answered type).maxStack [] false = .ok m) :
    (answering type).weave false
      = .ok { chime with body := some (answeredBody type (UInt16.ofNat m)) } := by
  refine bind_eq_ok.2 ⟨answeredBody type (UInt16.ofNat m), ?_, rfl⟩
  refine bind_eq_ok.2 ⟨chimeBody, rfl, bind_eq_ok.2 ⟨[(.call, .method (answer type)), (.ret, .none)],
    rfl, ?_⟩⟩
  refine bind_eq_ok.2 ⟨answeredBody type 0, rfl, ?_⟩
  show Except.mapError _ ((answered type).maxStack [] false >>= _) = _
  rw [computed]
  rfl

lemma chime_returnsExactly : chimeBody.ReturnsExactly false := by
  obtain ⟨depth, balanced⟩ := InstructionList.balanced_of_maxStack chime_maxStack rfl
  intro p d i arrived here _
  match p with
  | 0 => exact (Option.some.inj (balanced.first.symm.trans (balanced.of_arrives arrived))).symm
  | p + 1 => cases here

/-- Behind a hook that gives nothing the woven chime returns exactly. -/
theorem silent_chime_returns :
    chime.body = some chimeBody ∧ chimeBody.Closed ∧ chimeBody.ReturnsExactly false
      ∧ (answering .void).TakesLoads ∧ (answering .void).GivesNoMore
      ∧ chimeBody.locals.length < MethodBody.maxLocals
      ∧ (answering .void).weave false = .ok { chime with body := some (answeredBody .void 0) }
      ∧ (answeredBody .void 0).ReturnsExactly false := by
  have woven := weave_answering silent_maxStack
  have closed : chimeBody.Closed := ⟨by decide, by decide⟩
  have takes : (answering .void).TakesLoads := Nat.le_refl 0
  have gives : (answering .void).GivesNoMore := fun _ _ => rfl
  have room : chimeBody.locals.length < MethodBody.maxLocals := by decide
  refine ⟨rfl, closed, chime_returnsExactly, takes, gives, room, woven, ?_⟩
  obtain ⟨target', b', woven', made, returns⟩ | ⟨e, failed, _⟩ :=
    weave_returns_or_refuses (w := answering .void) rfl closed chime_returnsExactly takes
      (fun _ => gives) room
  · cases woven.symm.trans woven'
    cases made
    exact returns
  · cases woven.symm.trans failed

/-- Behind a hook that gives a number it does not, and yet is woven: the number stays on the stack. -/
theorem answered_chime_leaves :
    chimeBody.ReturnsExactly false ∧ (answering (.prim .int32)).TakesLoads
      ∧ (answering (.prim .int32)).weave false
        = .ok { chime with body := some (answeredBody (.prim .int32) 1) }
      ∧ ¬ (answeredBody (.prim .int32) 1).ReturnsExactly false := by
  refine ⟨chime_returnsExactly, Nat.le_refl 0, weave_answering answered_maxStack, fun returns => ?_⟩
  have gives : (Instruction.ofCode ⟨1⟩ (.call, .method (answer (.prim .int32)))).stackEffect false
      = .ok ⟨0, 1⟩ := rfl
  have arrived : (answeredBody (.prim .int32) 1).instructions.Arrives {e | e ∈ []} false 1 _ :=
    .follow .first rfl gives (Nat.le_refl 0) (.next rfl)
  exact Nat.one_ne_zero (returns arrived rfl rfl)

end Example

end Weaving
end HookWeave

import HookWeave.Proofs.Semantics.Front
import HookWeave.Proofs.Weaving.Preparation

/-!
# Bodies with a hook ahead of them

A prefix weave that goes well puts the hook's call ahead of the target, with code in front that
prepares the result and loads what the hook takes, and code behind that does what the hook asks for
(`ahead_of_weave`).
-/

namespace HookWeave
namespace Weaving

variable {M : Machine}

/-- The cell of the local for the result, if the woven body has one. -/
def resultCell? (w : Weaving) (a a' : Activation M) : Option M.Cell :=
  if w.hasResult then a'.locals[a.locals.length]? else none

/-- No instruction of a body names the local that the weave adds for the result. -/
def SparesResult (w : Weaving) (b : MethodBody) : Prop :=
  w.hasResult = true → ∀ i ∈ b.instructions.items, ∀ slot, i.localSlot? = some slot →
    slot.toNat ≠ b.locals.length

/-- An activation of the target and one of the woven body: the hook's call, with what is needed for
it in front and what its result asks for behind, stands ahead of the target's instructions. What these name
was handed out, and their locals are those of the target. -/
structure Ahead (w : Weaving) (a a' : Activation M) (first : Instruction) (slot : Option UInt16)
    (loads : Code) : Prop where
  fronts : a.Fronts a' (w.preparation slot ++ loads ++ w.call :: w.dispatch slot first.id)
  named : a.body.HandedOut
  locals : ∀ i ∈ a.body.instructions.items, ∀ slot, i.localSlot? = some slot →
    a'.locals[slot.toNat]? = a.locals[slot.toNat]?
  head : a.body.instructions.items[0]? = some first
  cells : Option.Rel (fun slot cell => a'.locals[slot.toNat]? = some cell) slot (w.resultCell? a a')
  pushes : ∀ memory, ∃ values, values.map some = w.given a memory (w.resultCell? a a')
    ∧ List.Forall₂ (a'.Pushes memory) loads values
  plain : ∀ c ∈ loads, Plain c
  takes : w.request.hook.sig.argCount = loads.length
  returnsValue : a'.returnsValue = w.target.returnsValue
  skips : w.maySkip = true → (w.resultCell? a a').isSome = w.target.returnsValue
  declares : a'.body.locals = a.body.locals ++ if w.hasResult then [w.target.ret] else []

variable {w : Weaving} {target' : MethodDeclaration} {a a' : Activation M}

lemma prologue_eq_ok {slot : Option UInt16} {first : InstrId} {code : Code}
    (h : w.prologue slot first = .ok code) :
    ∃ loads, w.loads slot 0 w.request.hookParams = .ok loads
      ∧ code = w.preparation slot ++ loads ++ w.call :: w.dispatch slot first := by
  obtain ⟨loads, loaded, same⟩ := bind_eq_ok.1 h
  cases same
  exact ⟨loads, loaded, rfl⟩

/-- In a balanced body that starts with code ahead of a target, the loads leave as many values as
the call takes, for an instance method would find nothing to be called on. -/
lemma takes_of_balanced {l : InstructionList} {returnsValue : Bool} {entries : List (InstrId × Nat)}
    {depth : Nat → Option Nat} {slot : Option UInt16} {loads rest : Code} {n : Nat}
    (balanced : l.Balanced returnsValue entries depth)
    (loaded : w.loads slot 0 w.request.hookParams = .ok loads)
    (params : w.request.hook.sig.params = w.request.hookParams.map (·.type))
    (stands : ∀ {k : Nat} {c : OpCode × Operand},
      (w.preparation slot ++ loads ++ w.call :: rest)[k]? = some c →
        l.items[k]? = some (Instruction.ofCode ⟨n + k⟩ c)) :
    w.request.hook.sig.argCount = loads.length := by
  obtain ⟨length, plain⟩ := plain_loads loaded
  obtain ⟨plain', lifts⟩ := plain_preparation w slot returnsValue 0
  have lifted := lifts_append lifts (lifts_loads returnsValue loaded)
  have ahead := balanced.behind (p := 0)
    (fun {k c} at' => ⟨⟨n + k⟩, by
      have front := stands (k := k) (c := c)
      rw [List.getElem?_append_left (List.getElem?_eq_some_iff.1 at').1] at front
      rw [Nat.zero_add]
      exact front at'⟩)
    (List.forall_mem_append.2 ⟨plain', plain⟩) balanced.first lifted
  have call := stands (k := (w.preparation slot ++ loads).length) (c := w.call) (by
    rw [List.getElem?_append_right (Nat.le_refl _), Nat.sub_self]
    rfl)
  rw [Nat.zero_add] at ahead
  obtain ⟨effect, next, takes, enough, _⟩ := balanced.allows ahead call
  cases takes
  have enough : w.request.hook.sig.argCount ≤ 0 + w.request.hookParams.length := enough
  rw [MethodSig.argCount, params, List.length_map] at enough ⊢
  omega

lemma isSome_eq_of_rel {α β : Type} {r : α → β → Prop} {x : Option α} {y : Option β}
    (h : Option.Rel r x y) : x.isSome = y.isSome := by
  cases h with
  | none => rfl
  | some => rfl

/-- What a checked weave ahead of a target puts together, whatever the signature is under which the hook is
called: the code that the loads stand in, and what they push. -/
structure Loaded (w : Weaving) (a a' : Activation M) (first : Instruction) (slot : Option UInt16)
    (loads : Code) : Prop where
  loaded : w.loads slot 0 w.request.hookParams = .ok loads
  fronts : a.Fronts a' (w.preparation slot ++ loads ++ w.call :: w.dispatch slot first.id)
  head : a.body.instructions.items[0]? = some first
  cells : Option.Rel (fun slot cell => a'.locals[slot.toNat]? = some cell) slot (w.resultCell? a a')
  pushes : ∀ memory, ∃ values, values.map some = w.given a memory (w.resultCell? a a')
    ∧ List.Forall₂ (a'.Pushes memory) loads values
  skips : w.maySkip = true → (w.resultCell? a a').isSome = w.target.returnsValue
  declares : a'.body.locals = a.body.locals ++ if w.hasResult then [w.target.ret] else []
  balanced : ∃ depth, a'.body.instructions.Balanced w.target.returnsValue a'.body.handlerEntries depth

/-- A hook that takes the result has a local for it. -/
lemma hasResult_of_takes {p : Parameter} (hp : p ∈ w.request.hookParams)
    (takes : w.takesResult p = true) : w.hasResult = true := by
  have uses : w.usesResult = true := List.any_eq_true.2 ⟨p, hp, takes⟩
  rw [hasResult, uses]
  rfl

/-- There is a local for the result wherever a parameter takes it. -/
lemma givesResult_iff {slot : Option UInt16} {p : Parameter} (before : w.request.kind = .before)
    (has : w.hasResult = slot.isSome) (hp : p ∈ w.request.hookParams) :
    w.givesResult p ↔ (slot.filter fun _ => w.takesResult p).isSome := by
  constructor
  · rintro ⟨_, takes⟩
    have there : slot.isSome = true := has ▸ hasResult_of_takes hp takes
    obtain ⟨result, rfl⟩ := Option.isSome_iff_exists.1 there
    rw [Option.filter_some, if_pos takes]
    rfl
  · intro there
    obtain ⟨result, taken⟩ := Option.isSome_iff_exists.1 there
    exact ⟨before, (Option.filter_eq_some_iff.1 taken).2⟩

/-- A prefix weave that goes well loads what the hook takes ahead of the target. -/
lemma loaded_of_weave (h : w.weave true = .ok target') (kind : w.request.kind = .before)
    (of : a.Of w.target) (of' : a'.Of target') (args : a'.args = a.args)
    (locals : a.locals <+: a'.locals) : ∃ first slot loads, w.Loaded a a' first slot loads := by
  obtain ⟨checked, body', rfl, before, _⟩ := of_weave_eq_ok h
  obtain ⟨_, _, fits, _⟩ := of_check_eq_ok checked
  obtain ⟨body, first, slot, code, there, found, written, items, clauses, returns, extended, m,
    computed, _⟩ := of_bodyBefore_eq_ok (before kind)
  obtain ⟨loads, loaded, rfl⟩ := prologue_eq_ok written
  cases of.body.symm.trans there
  cases of'.body
  have fronts : a.Fronts a' (w.preparation slot ++ loads ++ w.call :: w.dispatch slot first.id) :=
    ⟨items, clauses, of'.returnsValue.trans of.returnsValue.symm, args, locals⟩
  have cells : Option.Rel (fun slot cell => a'.locals[slot.toNat]? = some cell) slot
      (w.resultCell? a a') := by
    unfold resultCell?
    obtain ⟨has, rfl, _⟩ | ⟨has, room, rfl, more⟩ := extended
    · rw [has]
      exact .none
    · have bound : a.locals.length < a'.locals.length := by
        rw [of'.locals, more, List.length_append, of.locals]
        exact Nat.lt_succ_self _
      rw [has, if_pos rfl, List.getElem?_eq_getElem bound]
      refine .some ?_
      rw [UInt16.toNat_ofNat_of_lt' room, ← of.locals]
      exact List.getElem?_eq_getElem bound
  have has : w.hasResult = slot.isSome := by
    obtain ⟨has, rfl, _⟩ | ⟨has, _, rfl, _⟩ := extended
    · exact has
    · exact has
  have present : (w.resultCell? a a').isSome = w.hasResult := (isSome_eq_of_rel cells).symm.trans has.symm
  refine ⟨first, slot, loads, loaded, fronts, ?_, cells, fun memory => ?_, ?_, ?_, ?_⟩
  · rw [← List.head?_eq_getElem?]
    exact found
  · have given : w.given a memory (w.resultCell? a a') = w.givenFrom a' memory (w.resultCell? a a') 0
        w.request.hookParams := by
      rw [givenFrom_eq_mapIdx fun p hp takes => present.trans (hasResult_of_takes hp takes), given, args]
      simp only [Nat.zero_add]
    rw [given]
    exact pushes_loads loaded fits (args ▸ of.args) cells fun p hp => givesResult_iff kind has hp
  · intro asked
    rw [present, hasResult, asked, Bool.true_and]
    cases uses : w.usesResult with
    | false => rfl
    | true => exact (returns uses).symm
  · obtain ⟨has, _, same⟩ | ⟨has, _, _, more⟩ := extended
    · rw [has, same]
      exact (List.append_nil _).symm
    · rw [has, more]
      rfl
  · have inhabited : a'.body.instructions.isEmpty = false := by
      refine List.isEmpty_eq_false_iff_exists_mem.2 ⟨first, ?_⟩
      rw [items]
      exact List.mem_append_right _ (List.mem_of_mem_head? found)
    exact InstructionList.balanced_of_maxStack computed inhabited

/-- The locals of the target are those of the woven body, but for the one for the result. -/
lemma getElem?_locals {slot : UInt16} (of : a.Of w.target) (of' : a'.Of target')
    (locals : a.locals <+: a'.locals)
    (declares : a'.body.locals = a.body.locals ++ if w.hasResult then [w.target.ret] else [])
    (other : w.hasResult = true → slot.toNat ≠ a.body.locals.length) :
    a'.locals[slot.toNat]? = a.locals[slot.toNat]? := by
  have outside : slot.toNat < a.locals.length ∨ a'.locals.length ≤ slot.toNat := by
    have counted := congrArg List.length declares
    rw [List.length_append, ← of.locals, ← of'.locals] at counted
    rw [← of.locals] at other
    cases has : w.hasResult with
    | false =>
      rw [has] at counted
      have counted : a'.locals.length = a.locals.length := counted
      omega
    | true =>
      rw [has] at counted
      have counted : a'.locals.length = a.locals.length + 1 := counted
      have other := other has
      omega
  obtain ⟨more, same⟩ := locals
  cases outside with
  | inl own => rw [← same, List.getElem?_append_left own]
  | inr none =>
    have short : a.locals.length ≤ a'.locals.length := by
      rw [← same, List.length_append]
      exact Nat.le_add_right _ _
    rw [List.getElem?_eq_none none, List.getElem?_eq_none (short.trans none)]

/-- A prefix weave that goes well puts the hook ahead of the target. -/
lemma ahead_of_weave (h : w.weave true = .ok target') (kind : w.request.kind = .before)
    (params : w.request.hook.sig.params = w.request.hookParams.map (·.type))
    (named : a.body.HandedOut) (spare : w.SparesResult a.body)
    (of : a.Of w.target) (of' : a'.Of target') (args : a'.args = a.args)
    (locals : a.locals <+: a'.locals) : ∃ first slot loads, w.Ahead a a' first slot loads := by
  obtain ⟨first, slot, loads, loaded⟩ := loaded_of_weave h kind of of' args locals
  obtain ⟨depth, balanced⟩ := loaded.balanced
  have returnsValue : a'.returnsValue = w.target.returnsValue :=
    loaded.fronts.returnsValue.trans of.returnsValue
  have same : ∀ i ∈ a.body.instructions.items, ∀ slot, i.localSlot? = some slot →
      a'.locals[slot.toNat]? = a.locals[slot.toNat]? := fun i hi slot names =>
    getElem?_locals of of' locals loaded.declares fun has => spare has i hi slot names
  exact ⟨first, slot, loads, loaded.fronts, named, same, loaded.head, loaded.cells, loaded.pushes,
    (plain_loads loaded.loaded).2,
    takes_of_balanced balanced loaded.loaded params loaded.fronts.getElem?_front, returnsValue,
    loaded.skips, loaded.declares⟩

end Weaving
end HookWeave

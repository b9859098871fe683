import HookWeave.Proofs.Code.Splices
import HookWeave.Proofs.Weaving.Shape

/-!
# Returns on which the hook is called

A hook that runs after its target is called in place of the target's last return, and nowhere else.
Every path through the woven body to its last return comes straight from the call of the hook. Every
other path to a return is one of the target, to a return ahead of its last instruction
(`Weaving.weave_after_returns`); the hook is not called on it (`Example.visit_skips_greeting`).
-/

namespace HookWeave

/-- A path of control through the body, from its first instruction or from a handler: the positions
that it goes through, the latest first. -/
inductive MethodBody.Path (b : MethodBody) : List Nat → Prop
  | first : Path b [0]
  | handler {c : ExceptionClause} {p : Nat} :
    c ∈ b.clauses →
    b.instructions.position? c.handlerStart = some p →
    Path b [p]
  | follow {p q : Nat} {path : List Nat} {i : Instruction} :
    Path b (p :: path) →
    b.instructions.items[p]? = some i →
    b.instructions.Continues i p q →
    Path b (q :: p :: path)

variable {b b' : MethodBody} {pre : List Instruction} {last : Instruction}
  {code : List (OpCode × Operand)} {p : Nat} {path : List Nat}

/-- A path through a body that has code in place of its last instruction is a path through the old
body, or comes straight from the position before. -/
lemma MethodBody.Path.of_ended (ended : b.instructions.Ended b'.instructions pre last code)
    (clauses : b'.clauses
      = b.clauses.map (·.retarget last.id (some ⟨b.instructions.nextId⟩)))
    (closed : b.Closed) (plain : ∀ c ∈ code, c.2.targets = []) (h : b'.Path (p :: path)) :
    (p ≤ pre.length ∧ b.Path (p :: path))
      ∨ (pre.length < p ∧ ∃ q rest, path = q :: rest ∧ q + 1 = p) := by
  generalize whole : p :: path = steps at h
  induction h generalizing p path with
  | first =>
    cases whole
    exact .inl ⟨Nat.zero_le _, .first⟩
  | handler mem position =>
    cases whole
    rw [clauses] at mem
    obtain ⟨c, hc, rfl⟩ := List.mem_map.1 mem
    have was := ended.of_position? (closed.handlers c hc) position
    exact .inl ⟨ended.le_of_position? was, .handler hc was⟩
  | @follow p q rest j _ here goes ih =>
    cases whole
    cases Nat.lt_or_ge p pre.length with
    | inl before =>
      -- From an old instruction control goes on as it did.
      obtain ⟨_, was⟩ | ⟨behind, _⟩ := ih rfl
      · rw [ended.getElem?_before before] at here
        obtain ⟨i, old, rfl⟩ := Option.map_eq_some_iff.1 here
        have on := ended.of_continues (closed.targets i (List.mem_of_getElem? old)) goes
        exact .inl ⟨ended.le_of_continues before on, .follow was old on⟩
      · exact absurd before (Nat.lt_asymm behind)
    | inr behind =>
      -- From one of the code it goes on to the next.
      obtain ⟨k, c, rfl, at', rfl⟩ := ended.of_behind behind here
      have next := goes.next_of_plain (plain _ (List.mem_of_getElem? at'))
      exact .inr ⟨by omega, _, _, rfl, next.symm⟩

namespace Weaving

variable {w : Weaving} {target' : MethodDeclaration}

/-- The path comes straight from the call of the hook, which is the instruction before. -/
def ComesFromHook (w : Weaving) (b : MethodBody) (p : Nat) (path : List Nat) : Prop :=
  ∃ q rest i, path = q :: rest ∧ q + 1 = p ∧ b.instructions.items[q]? = some i
    ∧ (i.op, i.operand) = w.call

/-- The only return of the epilogue is its last instruction, right behind the call of the hook. -/
lemma ret_epilogue {k : Nat} {c : OpCode × Operand} (h : w.epilogue = .ok code)
    (at' : code[k]? = some c) (returns : c.1 = .ret) :
    k + 1 = code.length ∧ ∃ k', k = k' + 1 ∧ code[k']? = some w.call := by
  obtain ⟨loads, loaded, rfl⟩ := epilogue_eq_ok h
  generalize front : (if w.target.returnsValue then [(OpCode.pop, Operand.none)] else []) ++ loads
    = before at at'
  have other : ∀ c ∈ before, c.1 ≠ .ret := by
    rw [← front]
    intro c hc same
    cases List.mem_append.1 hc with
    | inl dropped =>
      split_ifs at dropped
      · cases List.mem_singleton.1 dropped
        cases same
      · cases dropped
    | inr mem =>
      have flow := ((plain_loads loaded).2 c mem).flow
      rw [same] at flow
      cases flow
  have behind : before.length ≤ k := by
    by_contra inside
    rw [List.getElem?_append_left (Nat.lt_of_not_le inside)] at at'
    exact other c (List.mem_of_getElem? at') returns
  obtain ⟨n, rfl⟩ := Nat.exists_eq_add_of_le behind
  rw [List.getElem?_append_right behind, Nat.add_sub_cancel_left] at at'
  match n with
  | 0 =>
    cases at'
    cases returns
  | 1 =>
    refine ⟨by rw [List.length_append]; rfl, before.length, rfl, ?_⟩
    rw [List.getElem?_append_right (Nat.le_refl _), Nat.sub_self]
    rfl
  | n + 2 => cases at'

/-- Where a hook runs after its target, a path through the woven body to a return leads to its last
instruction, straight from the call of the hook, or it is a path through the target to a return ahead
of the target's last instruction. -/
theorem weave_after_returns {verify : Bool} (after : w.request.kind = .after)
    (there : w.target.body = some b) (closed : b.Closed) (h : w.weave verify = .ok target') :
    ∃ b', target'.body = some b' ∧ ∀ {p path i}, b'.Path (p :: path) →
      b'.instructions.items[p]? = some i → i.op = .ret →
        (p + 1 = b'.instructions.size ∧ w.ComesFromHook b' p path)
        ∨ (p + 1 < b.instructions.size ∧ b.Path (p :: path)
          ∧ ∃ old, b.instructions.items[p]? = some old ∧ old.op = .ret) := by
  obtain ⟨b', rfl, _, woven⟩ := body_of_weave_eq_ok h
  obtain ⟨b₀, pre, last, code, there', was, _, written, items, clauses, _⟩ :=
    of_bodyAfter_eq_ok (woven after)
  cases there.symm.trans there'
  have inhabited : code ≠ [] := by
    obtain ⟨loads, _, rfl⟩ := epilogue_eq_ok written
    exact List.append_ne_nil_of_right_ne_nil _ (List.cons_ne_nil _ _)
  have ended : b.instructions.Ended b'.instructions pre last code := ⟨was, items, inhabited⟩
  refine ⟨b', rfl, fun {p path i} runs here returns => ?_⟩
  cases Nat.lt_or_ge p pre.length with
  | inl before =>
    rw [ended.getElem?_before before] at here
    obtain ⟨old, found, rfl⟩ := Option.map_eq_some_iff.1 here
    obtain ⟨_, runs⟩ | ⟨behind, _⟩ := runs.of_ended ended clauses closed (targets_epilogue written)
    · exact .inr ⟨by rw [ended.size]; omega, runs, old, found, returns⟩
    · exact absurd before (Nat.lt_asymm behind)
  | inr behind =>
    obtain ⟨k, c, rfl, at', rfl⟩ := ended.of_behind behind here
    obtain ⟨final, k', rfl, called⟩ := ret_epilogue written at' returns
    refine .inl ⟨by rw [ended.size', ← final]; rfl, ?_⟩
    obtain ⟨inside, _⟩ | ⟨_, q, rest, rfl, next⟩ :=
      runs.of_ended ended clauses closed (targets_epilogue written)
    · exact absurd inside (by omega)
    · cases Nat.succ.inj next
      exact ⟨_, rest, _, rfl, rfl, ended.holds k' _ called, rfl⟩

/-! ## An example -/

namespace Example

/-- Gives nothing, as early as its argument says. -/
def visitBody : MethodBody where
  maxStack := 1
  initLocals := false
  locals := []
  instructions := .ofCode [(.ldarg0, .none), (.brtrueShort, .target ⟨3⟩), (.ret, .none), (.ret, .none)]
  clauses := []

/-- The method with that body. -/
def visit : MethodDeclaration :=
  ⟨"Visit", 0x16, [⟨"long", .prim .bool⟩], .void, [], some visitBody⟩

/-- The visit with another body. -/
def visitOf (b : MethodBody) : MethodDeclaration :=
  { visit with body := some b }

/-- Takes nothing and gives nothing. -/
def greet : MethodRef :=
  ⟨⟨"Patches", "", "Hooks"⟩, "Greet", ⟨false, .void, []⟩⟩

/-- The greeting behind the visit. -/
def greeting : Weaving :=
  ⟨{}, ⟨"Shop", "", "Door"⟩, visit, ⟨⟨"Shop", "", "Door"⟩, "Visit", greet, [], true, .after, []⟩⟩

/-- The instructions of the woven visit. -/
def greeted : InstructionList where
  items := [⟨⟨0⟩, .ldarg0, .none⟩, ⟨⟨1⟩, .brtrueShort, .target ⟨4⟩⟩, ⟨⟨2⟩, .ret, .none⟩,
    ⟨⟨4⟩, .call, .method greet⟩, ⟨⟨5⟩, .ret, .none⟩]
  nextId := 6
  nodup := by decide
  below := by decide

/-- The body of the woven visit. -/
def greetedBody : MethodBody :=
  ⟨1, false, [], greeted, []⟩

lemma weave_greeting_onto (last : Instruction)
    (final : b.instructions.last?.filter (·.op = .ret) = some last)
    (edited : ({ b with instructions := b.instructions.pushAll [(.call, .method greet),
      (.ret, .none)] }).apply (MethodBody.removeInstruction last.id) = .ok b')
    (inhabited : b'.instructions.isEmpty = false)
    (deep : b'.instructions.maxStackWithin 20 b'.handlerEntries false = some b'.maxStack.toNat) :
    (greeting.onto (visitOf b)).weave true = .ok (visitOf b') := by
  have checked : (greeting.onto (visitOf b)).check = .ok () := rfl
  refine bind_eq_ok.2 ⟨(), checked, bind_eq_ok.2 ⟨b', bind_eq_ok.2 ⟨b, rfl, ?_⟩, rfl⟩⟩
  simp only [final]
  refine bind_eq_ok.2 ⟨_, rfl, bind_eq_ok.2 ⟨b', edited, ?_⟩⟩
  rw [(greeting.onto (visitOf b)).balanced_of_within 20 inhabited deep, UInt16.ofNat_toNat]

lemma weave_greeting : greeting.weave true = .ok (visitOf greetedBody) :=
  weave_greeting_onto ⟨⟨3⟩, .ret, .none⟩ rfl (by decide +kernel) rfl (by decide +kernel)

/-- A long visit ends with the greeting. -/
theorem long_visit_greeted :
    greeting.request.kind = .after ∧ visit.body = some visitBody ∧ visitBody.Closed
      ∧ greeting.weave true = .ok { visit with body := some greetedBody }
      ∧ greetedBody.Path [4, 3, 1, 0] ∧ greeting.ComesFromHook greetedBody 4 [3, 1, 0] := by
  have closed : visitBody.Closed := ⟨by decide, by decide⟩
  obtain ⟨b', same, returns⟩ := weave_after_returns rfl rfl closed weave_greeting
  cases same
  have runs : greetedBody.Path [4, 3, 1, 0] := by
    refine .follow (.follow (.follow .first rfl (.next rfl)) rfl ?_) rfl (.next rfl)
    exact .target (List.mem_cons_self ..) (List.mem_singleton_self _) (by decide)
  obtain ⟨_, called⟩ | ⟨early, _⟩ := returns runs rfl rfl
  · exact ⟨rfl, rfl, closed, weave_greeting, runs, called⟩
  · exact absurd early (by decide)

/-- A short visit ends without it: control comes to a return that is not behind the call. -/
theorem visit_skips_greeting :
    greeting.request.kind = .after ∧ greeting.weave true = .ok { visit with body := some greetedBody }
      ∧ greetedBody.Path [2, 1, 0]
      ∧ greetedBody.instructions.items[2]? = some ⟨⟨2⟩, .ret, .none⟩
      ∧ ¬ greeting.ComesFromHook greetedBody 2 [1, 0] := by
  refine ⟨rfl, weave_greeting, ?_, rfl, ?_⟩
  · exact .follow (.follow .first rfl (.next rfl)) rfl (.next rfl)
  · rintro ⟨q, rest, i, same, _, here, called⟩
    cases same
    cases here
    cases called

end Example

end Weaving
end HookWeave

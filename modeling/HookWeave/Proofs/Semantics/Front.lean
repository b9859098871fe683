import HookWeave.Proofs.Semantics.Spliced

/-!
# Code in front of a body

A body with new code in front of its first instruction holds the body as it was, one piece of code
further on (`Fronts.embeds`), if what the body names was handed out and the locals that it names are the
same. The new code lies in no region, so that an exception raised there leaves the method
(`Fronts.routes_front_iff`).
-/

namespace HookWeave

variable {M : Machine}

/-! ## Identities that stay -/

lemma map_stay (ids : List InstrId) : ids.map InstrId.stay = ids :=
  List.map_id'' (fun _ => rfl) ids

lemma Operand.relabel_stay (operand : Operand) : operand.relabel InstrId.stay = operand := by
  cases operand with
  | switch ids => exact congrArg Operand.switch (map_stay ids)
  | _ => rfl

lemma Instruction.relabel_stay (i : Instruction) : i.relabel InstrId.stay = i := by
  rw [relabel, Operand.relabel_stay]
  rfl

lemma State.relabel_stay (s : State M) : s.relabel InstrId.stay = s := by
  rw [relabel, map_stay]
  rfl

lemma Configuration.relabel_stay (c : Configuration M) : c.relabel InstrId.stay = c := by
  cases c with
  | running s => exact congrArg Configuration.running s.relabel_stay
  | _ => rfl

namespace Activation

/-- One activation runs the other's body with code in front, on the same arguments and locals, of
which there may be more. -/
structure Fronts (a a' : Activation M) (code : List (OpCode × Operand)) : Prop where
  items : a'.body.instructions.items = InstructionList.number a.body.instructions.nextId code
    ++ a.body.instructions.items
  clauses : a'.body.clauses = a.body.clauses
  returnsValue : a'.returnsValue = a.returnsValue
  args : a'.args = a.args
  locals : a.locals <+: a'.locals

/-- Where an exception leads that is raised ahead of a body: out of the method, since no region holds what
is there. That makes sense only if the boundaries of all clauses are listed. -/
inductive RaisesAhead (a : Activation M) (control : M.Control) (exception : M.Value)
    (memory : M.Memory) : Configuration M → Prop where
  | escapes {exception' : M.Value} {control' : M.Control}
      (listed : ∀ c ∈ a.body.clauses, c.Listed a.body.instructions)
      (routed : M.route control (.raise exception) (a.body.clauses.map (·.outside)) memory
        (.escape exception') control') :
      a.RaisesAhead control exception memory (.escaped exception' memory)
  | wrong (unlisted : ¬ ∀ c ∈ a.body.clauses, c.Listed a.body.instructions) :
      a.RaisesAhead control exception memory .wrong

namespace Fronts

variable {a a' : Activation M} {code : List (OpCode × Operand)} {k : Nat} {i : Instruction}
  {id : InstrId}

lemma fronted (h : a.Fronts a' code) : a.body.instructions.Fronted a'.body.instructions code :=
  ⟨h.items⟩

lemma holds (h : a.Fronts a' code) :
    a'.body.instructions.Holds 0 a.body.instructions.nextId code :=
  h.fronted.holds

lemma getElem?_front {c : OpCode × Operand} (h : a.Fronts a' code) (at' : code[k]? = some c) :
    a'.body.instructions.items[k]? = some (.ofCode ⟨a.body.instructions.nextId + k⟩ c) :=
  h.fronted.getElem?_front at'

lemma getElem?_behind (h : a.Fronts a' code) :
    a'.body.instructions.items[code.length + k]? = a.body.instructions.items[k]? :=
  h.fronted.getElem?_behind

/-- The body lies in the longer one as it is. -/
theorem embeds (h : a.Fronts a' code) (named : a.body.HandedOut)
    (spare : ∀ i ∈ a.body.instructions.items, ∀ slot, i.localSlot? = some slot →
      a'.locals[slot.toNat]? = a.locals[slot.toNat]?) :
    a.Embeds a' InstrId.stay fun _ => True where
  returnsValue := h.returnsValue
  args := h.args
  locals := spare
  named := named
  get? {id i} _ found := by
    obtain ⟨k, at', rfl⟩ := InstructionList.get?_eq_some.1 found
    rw [Instruction.relabel_stay]
    exact InstructionList.get?_getElem (h.getElem?_behind.trans at')
  successor? {id i} _ found := by
    obtain ⟨k, at', rfl⟩ := InstructionList.get?_eq_some.1 found
    have there : a'.body.instructions.items[code.length + k]? = some i := h.getElem?_behind.trans at'
    show a'.body.instructions.successor? i.id = _
    rw [InstructionList.successor?_getElem there, InstructionList.successor?_getElem at',
      Nat.add_assoc, h.getElem?_behind, Option.map_map]
    rfl
  contains old := h.fronted.contains_eq old
  coverage? old := MethodBody.coverage?_behind_eq h.fronted h.clauses named old
  clauses := by
    rw [h.clauses]
    rfl

/-! ## Steps through the code -/

variable {s s' : State M} {c : OpCode × Operand} {cfg : Configuration M}
  {calls : List (Call M.Value)} {j first : Instruction}

lemma step_front (h : a.Fronts a' code) (at' : code[k]? = some c)
    (here : a'.body.instructions.items[k]? = some j) :
    a'.Step (s.moveTo j.id) calls cfg ↔ calls = a'.calls (.ofCode s.here c) s
      ∧ ∃ t, a'.Does (.ofCode s.here c) s t ∧ a'.Lands j (s.moveTo j.id) t cfg := by
  rw [← Nat.zero_add k] at here
  exact step_held h.holds at' here

/-- An exception that is raised in the new code leaves the method. -/
lemma routes_front_iff (h : a.Fronts a' code) (named : a.body.HandedOut) (bound : k < code.length)
    (here : a'.body.instructions.items[k]? = some j) (fresh : s.left = []) {exception : M.Value}
    {memory : M.Memory} :
    a'.Routes { s.moveTo j.id with memory := memory } (.raise exception) cfg
      ↔ a.RaisesAhead s.control exception memory cfg := by
  cases (h.getElem?_front (List.getElem?_eq_getElem bound)).symm.trans here
  by_cases listed : ∀ c ∈ a.body.clauses, c.Listed a.body.instructions
  · have outside := MethodBody.coverage?_front h.fronted h.clauses listed bound
    rw [routes_iff outside]
    constructor
    · rintro ⟨verdict, control', routed, follows⟩
      cases follows with
      | enter _ guarded _ =>
        rw [List.getElem?_map, Option.map_map] at guarded
        obtain ⟨clause, _, inside⟩ := Option.map_eq_some_iff.1 guarded
        cases inside
      | resume found =>
        have found : s.left[_]? = _ := found
        rw [fresh] at found
        cases found
      | escape => exact .escapes listed routed
    · intro raised
      cases raised with
      | escapes _ routed => exact ⟨_, _, routed, .escape⟩
      | wrong unlisted => exact absurd listed unlisted
  · have nowhere := MethodBody.coverage?_front_eq_none h.fronted h.clauses named listed (k := k)
    rw [routes_uncovered nowhere]
    constructor
    · rintro rfl
      exact .wrong listed
    · intro raised
      cases raised with
      | escapes known => exact absurd known listed
      | wrong => rfl

lemma run_front {pre post : List (OpCode × Operand)} (h : a.Fronts a' (pre ++ post))
    (plain : ∀ c ∈ pre, Plain c) (through : a'.Through pre s s')
    (entry : a'.body.instructions.items[0]? = some i)
    (behind : a'.body.instructions.items[pre.length]? = some j) :
    Run a'.Step (.running (s.moveTo i.id)) [] (.running (s'.moveTo j.id)) := by
  rw [← Nat.zero_add pre.length] at behind
  exact run_held h.holds plain through entry behind

lemma not_contains_front (h : a.Fronts a' code) (bound : k < code.length)
    (here : a'.body.instructions.items[k]? = some j) :
    ¬ a.body.instructions.contains j.id := by
  cases (h.getElem?_front (List.getElem?_eq_getElem bound)).symm.trans here
  exact InstructionList.not_contains_new

/-- An instruction stands behind each of the new code, at the end the first of the body. -/
lemma next_front (h : a.Fronts a' code) (head : a.body.instructions.items[0]? = some first)
    (bound : k ≤ code.length) : ∃ j, a'.body.instructions.items[k]? = some j
      ∧ (k = code.length → j = first) := by
  cases Nat.lt_or_eq_of_le bound with
  | inl inside =>
    refine ⟨_, h.getElem?_front (List.getElem?_eq_getElem inside), fun last => ?_⟩
    exact absurd last (Nat.ne_of_lt inside)
  | inr last =>
    cases last
    exact ⟨first, h.getElem?_behind.trans head, fun _ => rfl⟩

end Fronts
end Activation
end HookWeave

import HookWeave.Proofs.Semantics.Spliced

/-!
# Code in place of the last instruction

A body with new code in place of its last instruction holds the others as they were, except that
whatever named the last names the first of the code (`Ends.embeds`), if all that the body names was handed
out. From the new code the clauses then send control where they sent it from the last instruction
(`Ends.routes_iff`).
-/

namespace HookWeave

variable {M : Machine}

/-- The identity that is named where another was, once new code is in place of the instruction
`old`. -/
def Activation.handOver (a : Activation M) (old id : InstrId) : InstrId :=
  if id = old then ⟨a.body.instructions.nextId⟩ else id

variable {a : Activation M} {old id : InstrId}

lemma Activation.handOver_self : a.handOver old old = ⟨a.body.instructions.nextId⟩ :=
  if_pos rfl

lemma Activation.handOver_of_ne (h : id ≠ old) : a.handOver old id = id :=
  if_neg h

lemma Operand.retarget_eq_relabel (operand : Operand) :
    operand.retarget old ⟨a.body.instructions.nextId⟩ = operand.relabel (a.handOver old) := by
  cases operand <;> rfl

lemma Instruction.retarget_eq_relabel {i : Instruction} (h : i.id ≠ old) :
    i.retarget old ⟨a.body.instructions.nextId⟩ = i.relabel (a.handOver old) := by
  rw [retarget, relabel, Operand.retarget_eq_relabel, Activation.handOver_of_ne h]

namespace Activation

/-- One activation runs the other's body with code in place of the last instruction, on the same
arguments and locals. -/
structure Ends (a a' : Activation M) (pre : List Instruction) (last : Instruction)
    (code : List (OpCode × Operand)) : Prop where
  was : a.body.instructions.items = pre ++ [last]
  items : a'.body.instructions.items = pre.map (·.retarget last.id ⟨a.body.instructions.nextId⟩)
    ++ InstructionList.number a.body.instructions.nextId code
  clauses : a'.body.clauses
    = a.body.clauses.map (·.retarget last.id (some ⟨a.body.instructions.nextId⟩))
  returnsValue : a'.returnsValue = a.returnsValue
  args : a'.args = a.args
  locals : a'.locals = a.locals
  inhabited : code ≠ []

namespace Ends

variable {a a' : Activation M} {pre : List Instruction} {last i : Instruction}
  {code : List (OpCode × Operand)} {k : Nat} {id : InstrId}

lemma ended (h : a.Ends a' pre last code) :
    a.body.instructions.Ended a'.body.instructions pre last code :=
  ⟨h.was, h.items, h.inhabited⟩

lemma getElem?_last (h : a.Ends a' pre last code) :
    a.body.instructions.items[pre.length]? = some last :=
  h.ended.getElem?_last

lemma lt_of_ne (h : a.Ends a' pre last code) (at' : a.body.instructions.items[k]? = some i)
    (other : i.id ≠ last.id) : k < pre.length := by
  have bound := (List.getElem?_eq_some_iff.1 at').1
  rw [h.was, List.length_append] at bound
  refine Nat.lt_of_le_of_ne (Nat.le_of_lt_succ bound) fun same => ?_
  cases same
  cases h.getElem?_last.symm.trans at'
  exact other rfl

lemma ne_of_lt (h : a.Ends a' pre last code) (at' : a.body.instructions.items[k]? = some i)
    (before : k < pre.length) : i.id ≠ last.id :=
  h.ended.ne_of_lt at' before

lemma getElem?_pre (h : a.Ends a' pre last code) (at' : a.body.instructions.items[k]? = some i)
    (before : k < pre.length) : a'.body.instructions.items[k]?
      = some (i.relabel (a.handOver last.id)) := by
  rw [← Instruction.retarget_eq_relabel (h.ne_of_lt at' before)]
  rw [h.was, List.getElem?_append_left before] at at'
  rw [h.items, List.getElem?_append_left (by rwa [List.length_map]), List.getElem?_map, at']
  rfl

lemma holds (h : a.Ends a' pre last code) :
    a'.body.instructions.Holds pre.length a.body.instructions.nextId code :=
  h.ended.holds

/-- The first of the new code is in the place of the last instruction. -/
lemma getElem?_new (h : a.Ends a' pre last code) : ∃ c, code[0]? = some c
    ∧ a'.body.instructions.items[pre.length]?
      = some (.ofCode (a.handOver last.id last.id) c) := by
  obtain ⟨c, others, rfl⟩ := List.exists_cons_of_ne_nil h.inhabited
  refine ⟨c, rfl, ?_⟩
  rw [Activation.handOver_self]
  exact h.holds 0 c rfl

/-- Identities are handed over position by position. -/
lemma id_getElem? (h : a.Ends a' pre last code) (at' : a.body.instructions.items[k]? = some i) :
    ∃ j, a'.body.instructions.items[k]? = some j ∧ j.id = a.handOver last.id i.id := by
  by_cases same : i.id = last.id
  · have position := InstructionList.position?_getElem at'
    rw [same, InstructionList.position?_getElem h.getElem?_last] at position
    cases position
    obtain ⟨c, _, new⟩ := h.getElem?_new
    exact ⟨_, new, congrArg (a.handOver last.id) same.symm⟩
  · exact ⟨_, h.getElem?_pre at' (h.lt_of_ne at' same), rfl⟩

lemma clauses_relabel (h : a.Ends a' pre last code) :
    a'.body.clauses = a.body.clauses.map (·.relabel (a.handOver last.id)) :=
  MethodBody.clauses_relabel h.clauses

/-- Apart from the last instruction, the body lies in the new one. -/
theorem embeds (h : a.Ends a' pre last code) (named : a.body.HandedOut) :
    a.Embeds a' (a.handOver last.id) (· ≠ last.id) where
  returnsValue := h.returnsValue
  args := h.args
  locals _ _ slot _ := by rw [h.locals]
  named := named
  get? {id i} live found := by
    obtain ⟨k, at', rfl⟩ := InstructionList.get?_eq_some.1 found
    exact InstructionList.get?_getElem (h.getElem?_pre at' (h.lt_of_ne at' live))
  successor? {id i} live found := by
    obtain ⟨k, at', rfl⟩ := InstructionList.get?_eq_some.1 found
    have before := h.lt_of_ne at' live
    have there := h.getElem?_pre at' before
    obtain ⟨j, behind⟩ : ∃ j, a.body.instructions.items[k + 1]? = some j := by
      refine ⟨_, List.getElem?_eq_getElem ?_⟩
      rw [h.was, List.length_append]
      exact Nat.succ_lt_succ before
    obtain ⟨j', behind', same⟩ := h.id_getElem? behind
    show a'.body.instructions.successor? (i.relabel (a.handOver last.id)).id = _
    rw [InstructionList.successor?_getElem there, InstructionList.successor?_getElem at', behind,
      behind']
    exact congrArg some same
  contains old := h.ended.contains_eq old
  coverage? old := MethodBody.coverage?_replaced_eq h.ended h.clauses named old
  clauses := by
    rw [h.clauses_relabel, List.map_map]
    rfl

variable {s : State M} {stack : List M.Value} {cause : Cause M.Value} {c' : Configuration M}
  {j : Instruction}

/-- From the new code the clauses send control where they sent it from the last instruction. -/
lemma routes_iff (h : a.Ends a' pre last code) (named : a.body.HandedOut) (bound : k < code.length)
    (here : a'.body.instructions.items[pre.length + k]? = some j) (arrived : s.here = last.id) :
    a'.Routes ⟨j.id, stack, s.control, s.left.map (a.handOver last.id), s.memory⟩ cause c'
      ↔ ∃ c, a.Routes s cause c ∧ c' = c.relabel (a.handOver last.id) := by
  cases (h.holds k _ (List.getElem?_eq_getElem bound)).symm.trans here
  have old : s.here.val < a.body.instructions.nextId := by
    rw [arrived]
    exact a.body.instructions.below last (List.mem_of_getElem? h.getElem?_last)
  rw [← (h.embeds named).routes_iff old]
  have here : a'.body.coverage? ⟨a.body.instructions.nextId + k⟩ = a.body.coverage? s.here := by
    rw [arrived]
    exact MethodBody.coverage?_tail_eq h.ended h.clauses named bound
  have there : a'.body.coverage? (s.relabel (a.handOver last.id)).here = a.body.coverage? s.here :=
    (h.embeds named).coverage? old
  cases covered : a.body.coverage? s.here with
  | none =>
    rw [covered] at here there
    rw [Activation.routes_uncovered here, Activation.routes_uncovered there]
  | some coverage =>
    rw [covered] at here there
    rw [Activation.routes_iff here, Activation.routes_iff there]
    refine exists_congr fun verdict => exists_congr fun control => and_congr_right fun _ => ?_
    exact ⟨follows_moved, follows_moved⟩

lemma not_contains_tail (h : a.Ends a' pre last code) (bound : k < code.length)
    (here : a'.body.instructions.items[pre.length + k]? = some j) :
    ¬ a.body.instructions.contains j.id := by
  cases (h.holds k _ (List.getElem?_eq_getElem bound)).symm.trans here
  exact InstructionList.not_contains_new

end Ends
end Activation
end HookWeave

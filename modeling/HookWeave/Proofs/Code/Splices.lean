import HookWeave.Proofs.Code.Edits
import HookWeave.Proofs.Code.Paths
import HookWeave.Proofs.Semantics.Straight

/-!
# Code put into lists

Code is put in front of a list (`InstructionList.Fronted`), or in place of its last instruction, whose
name then goes to the first of the code (`InstructionList.Ended`). The old instructions are found
where they were, or as much further on as the code is long (`Fronted.position?_behind`,
`Ended.position?`), and from them control goes on as it did (`Fronted.of_continues`,
`Ended.of_continues`). In place of the last instruction this takes that branches name listed
instructions only (`MethodBody.Closed`): a branch to nowhere could name one of the code. It cannot if it
names an identity that was handed out (`MethodBody.HandedOut`): such an identity names what it named
(`Fronted.position?_eq`, `Ended.position?_eq`).
-/

namespace HookWeave

/-- Branches and handlers name instructions of the body only. -/
structure MethodBody.Closed (b : MethodBody) : Prop where
  targets : ∀ i ∈ b.instructions.items, ∀ id ∈ i.targets, b.instructions.contains id = true
  handlers : ∀ c ∈ b.clauses, b.instructions.contains c.handlerStart = true

/-- Branches and clauses of the body name identities that were handed out, to instructions that are listed
or were once. -/
structure MethodBody.HandedOut (b : MethodBody) : Prop where
  targets : ∀ i ∈ b.instructions.items, ∀ id ∈ i.targets, id.val < b.instructions.nextId
  clauses : ∀ c ∈ b.clauses, c.tryStart.val < b.instructions.nextId
    ∧ (∀ id ∈ c.tryEnd, id.val < b.instructions.nextId)
    ∧ c.handlerStart.val < b.instructions.nextId
    ∧ ∀ id ∈ c.handlerEnd, id.val < b.instructions.nextId

lemma Instruction.stackEffect_retarget (i : Instruction) (old new : InstrId) (returnsValue : Bool) :
    (i.retarget old new).stackEffect returnsValue = i.stackEffect returnsValue := by
  obtain ⟨id, op, operand⟩ := i
  cases operand <;> rfl

lemma Instruction.stackEffect_ret {i : Instruction} {returnsValue : Bool} (h : i.op = .ret) :
    i.stackEffect returnsValue = .ok ⟨returnsValue.toNat, 0⟩ := by
  unfold stackEffect
  rw [h]

namespace InstructionList

variable {l l' : InstructionList} {pre : List Instruction} {last i : Instruction}
  {code : List (OpCode × Operand)} {c : OpCode × Operand} {id : InstrId} {k p q : Nat}

/-- Control goes on straight from an instruction that names none. -/
lemma Continues.next_of_plain (goes : l.Continues i p q) (plain : i.targets = []) : q = p + 1 := by
  cases goes with
  | next => rfl
  | target _ mem =>
    rw [plain] at mem
    cases mem

/-- What comes behind a piece of code stands behind it. -/
lemma Holds.behind {n : Nat} {front rest : List (OpCode × Operand)}
    (h : l.Holds p n (front ++ rest)) : l.Holds (p + front.length) (n + front.length) rest := by
  intro k c at'
  rw [Nat.add_assoc, Nat.add_assoc]
  refine h _ c ?_
  rw [List.getElem?_append_right (Nat.le_add_right _ _), Nat.add_sub_cancel_left]
  exact at'

/-! ## In front -/

/-- The second list is the first one with code in front. -/
structure Fronted (l l' : InstructionList) (code : List (OpCode × Operand)) : Prop where
  items : l'.items = number l.nextId code ++ l.items

namespace Fronted

lemma holds (h : l.Fronted l' code) : l'.Holds 0 l.nextId code := by
  intro k c at'
  have bound := (List.getElem?_eq_some_iff.1 at').1
  rw [Nat.zero_add, h.items, List.getElem?_append_left (by rwa [length_number]), getElem?_number,
    at']
  rfl

lemma getElem?_front (h : l.Fronted l' code) (at' : code[k]? = some c) :
    l'.items[k]? = some (.ofCode ⟨l.nextId + k⟩ c) := by
  have there := h.holds k c at'
  rwa [Nat.zero_add] at there

lemma getElem?_behind (h : l.Fronted l' code) : l'.items[code.length + k]? = l.items[k]? := by
  rw [h.items, List.getElem?_append_right (by rw [length_number]; omega), length_number,
    Nat.add_sub_cancel_left]

lemma position?_behind (h : l.Fronted l' code) :
    l'.position? id = some (code.length + k) ↔ l.position? id = some k := by
  rw [position?_eq_some, position?_eq_some, h.getElem?_behind]

/-- What was listed stays so. -/
lemma contains (h : l.Fronted l' code) (was : l.contains id = true) : l'.contains id = true := by
  obtain ⟨k, position⟩ := contains_iff_position?.1 was
  exact contains_iff_position?.2 ⟨_, h.position?_behind.2 position⟩

lemma isEmpty_eq (h : l.Fronted l' code) (inhabited : l.isEmpty = false) : l'.isEmpty = false := by
  refine List.isEmpty_eq_false_iff.2 ?_
  rw [h.items]
  exact List.append_ne_nil_of_right_ne_nil _ (List.isEmpty_eq_false_iff.1 inhabited)

/-- What is listed is of the code or was listed. -/
lemma contains_cases (h : l.Fronted l' code) (listed : l'.contains id = true) :
    (∃ k < code.length, id = ⟨l.nextId + k⟩) ∨ l.contains id = true := by
  obtain ⟨k, position⟩ := contains_iff_position?.1 listed
  cases Nat.lt_or_ge k code.length with
  | inl inside =>
    obtain ⟨i, at', rfl⟩ := position?_eq_some.1 position
    cases (h.getElem?_front (List.getElem?_eq_getElem inside)).symm.trans at'
    exact .inl ⟨k, inside, rfl⟩
  | inr behind =>
    obtain ⟨n, rfl⟩ := Nat.exists_eq_add_of_le behind
    exact .inr (contains_iff_position?.2 ⟨n, h.position?_behind.1 position⟩)

/-- Identities that were handed out before name the same instructions behind code put in front. -/
lemma position?_eq (h : l.Fronted l' code) (old : id.val < l.nextId) :
    l'.position? id = (l.position? id).map (code.length + ·) := by
  cases was : l.position? id with
  | some k => exact h.position?_behind.2 was
  | none =>
    refine Option.eq_none_iff_forall_ne_some.2 fun k position => ?_
    obtain ⟨i, here, rfl⟩ := position?_eq_some.1 position
    cases Nat.lt_or_ge k code.length with
    | inl inside =>
      cases (h.getElem?_front (List.getElem?_eq_getElem inside)).symm.trans here
      exact absurd old (Nat.not_lt_of_le (Nat.le_add_right _ _))
    | inr behind =>
      obtain ⟨n, rfl⟩ := Nat.exists_eq_add_of_le behind
      cases was.symm.trans (h.position?_behind.1 position)

lemma contains_eq (h : l.Fronted l' code) (old : id.val < l.nextId) :
    l'.contains id = l.contains id := by
  rw [Bool.eq_iff_iff, contains_iff_position?, contains_iff_position?, h.position?_eq old]
  cases l.position? id <;> simp

/-- Control goes from an old instruction to another as it did. -/
lemma of_continues (h : l.Fronted l' code)
    (goes : l'.Continues i (code.length + p) (code.length + q)) : l.Continues i p q := by
  generalize whither : code.length + q = q' at goes
  cases goes with
  | next on =>
    cases Nat.add_left_cancel (whither.trans (Nat.add_assoc ..))
    exact .next on
  | target branch mem position =>
    rw [← whither] at position
    exact .target branch mem (h.position?_behind.1 position)

end Fronted

/-! ## In place of the last instruction -/

/-- The second list is the first one with code in place of the last instruction. What named that
instruction names the first of the code. -/
structure Ended (l l' : InstructionList) (pre : List Instruction) (last : Instruction)
    (code : List (OpCode × Operand)) : Prop where
  was : l.items = pre ++ [last]
  items : l'.items = pre.map (·.retarget last.id ⟨l.nextId⟩) ++ number l.nextId code
  inhabited : code ≠ []

namespace Ended

lemma size (h : l.Ended l' pre last code) : l.size = pre.length + 1 := by
  rw [InstructionList.size, h.was, List.length_append]
  rfl

lemma size' (h : l.Ended l' pre last code) : l'.size = pre.length + code.length := by
  rw [InstructionList.size, h.items, List.length_append, List.length_map, length_number]

lemma isEmpty_eq (h : l.Ended l' pre last code) : l'.isEmpty = false := by
  refine List.isEmpty_eq_false_iff.2 (List.ne_nil_of_length_pos ?_)
  rw [show l'.items.length = _ from h.size']
  exact Nat.add_pos_right _ (List.length_pos_iff.2 h.inhabited)

lemma getElem?_last (h : l.Ended l' pre last code) : l.items[pre.length]? = some last :=
  getElem?_split h.was

lemma getElem?_before (h : l.Ended l' pre last code) (before : k < pre.length) :
    l'.items[k]? = l.items[k]?.map (·.retarget last.id ⟨l.nextId⟩) := by
  rw [h.was, h.items, List.getElem?_append_left before,
    List.getElem?_append_left (by rwa [List.length_map]), List.getElem?_map]

lemma holds (h : l.Ended l' pre last code) : l'.Holds pre.length l.nextId code := by
  intro k c at'
  rw [h.items, List.getElem?_append_right (by rw [List.length_map]; exact Nat.le_add_right _ _),
    List.length_map, Nat.add_sub_cancel_left, getElem?_number, at']
  rfl

/-- From where the last instruction was on, the code stands. -/
lemma of_behind (h : l.Ended l' pre last code) (behind : pre.length ≤ p)
    (here : l'.items[p]? = some i) : ∃ k c, p = pre.length + k ∧ code[k]? = some c
      ∧ i = ⟨⟨l.nextId + k⟩, c.1, c.2⟩ := by
  obtain ⟨k, rfl⟩ := Nat.exists_eq_add_of_le behind
  have bound := (List.getElem?_eq_some_iff.1 here).1
  rw [show l'.items.length = _ from h.size'] at bound
  have at' := List.getElem?_eq_getElem (Nat.lt_of_add_lt_add_left bound)
  exact ⟨k, _, rfl, at', Option.some.inj (here.symm.trans (h.holds k _ at'))⟩

lemma ne_of_lt (h : l.Ended l' pre last code) (at' : l.items[k]? = some i) (before : k < pre.length) :
    i.id ≠ last.id := by
  intro same
  have position := position?_getElem at'
  rw [same, position?_getElem h.getElem?_last] at position
  exact Nat.ne_of_gt before (Option.some.inj position)

lemma le_of_position? (h : l.Ended l' pre last code) (was : l.position? id = some k) :
    k ≤ pre.length := by
  obtain ⟨i, at', rfl⟩ := position?_eq_some.1 was
  have bound := (List.getElem?_eq_some_iff.1 at').1
  rw [show l.items.length = pre.length + 1 from h.size] at bound
  exact Nat.le_of_lt_succ bound

/-- Names stand for the positions that they stood for. -/
lemma position? (h : l.Ended l' pre last code) (was : l.position? id = some k) :
    l'.position? (id.replace last.id ⟨l.nextId⟩) = some k := by
  obtain ⟨i, at', rfl⟩ := position?_eq_some.1 was
  cases Nat.lt_or_eq_of_le (h.le_of_position? was) with
  | inl before =>
    rw [InstrId.replace_of_ne (h.ne_of_lt at' before)]
    refine position?_eq_some.2 ⟨i.retarget last.id ⟨l.nextId⟩, ?_, rfl⟩
    rw [h.getElem?_before before, at']
    rfl
  | inr final =>
    cases final
    cases h.getElem?_last.symm.trans at'
    obtain ⟨c, others, rfl⟩ := List.exists_cons_of_ne_nil h.inhabited
    rw [InstrId.replace_self]
    exact position?_eq_some.2 ⟨_, h.holds 0 c rfl, rfl⟩

/-- Identities that were handed out before name the same positions, where code stands in place of the
last instruction and takes over its identity. -/
lemma position?_eq (h : l.Ended l' pre last code) (old : id.val < l.nextId) :
    l'.position? (id.replace last.id ⟨l.nextId⟩) = l.position? id := by
  cases was : l.position? id with
  | some k => exact h.position? was
  | none =>
    have other : id ≠ last.id := by
      rintro rfl
      cases was.symm.trans (position?_getElem h.getElem?_last)
    rw [InstrId.replace_of_ne other]
    refine Option.eq_none_iff_forall_ne_some.2 fun k position => ?_
    obtain ⟨i, here, rfl⟩ := position?_eq_some.1 position
    cases Nat.lt_or_ge k pre.length with
    | inl before =>
      rw [h.getElem?_before before] at here
      obtain ⟨j, there, rfl⟩ := Option.map_eq_some_iff.1 here
      have listed : l.position? j.id = some k := position?_getElem there
      cases was.symm.trans listed
    | inr behind =>
      obtain ⟨n, c, rfl, at', rfl⟩ := h.of_behind behind here
      exact absurd old (Nat.not_lt_of_le (Nat.le_add_right _ _))

lemma contains_eq (h : l.Ended l' pre last code) (old : id.val < l.nextId) :
    l'.contains (id.replace last.id ⟨l.nextId⟩) = l.contains id := by
  rw [Bool.eq_iff_iff, contains_iff_position?, contains_iff_position?, h.position?_eq old]

/-- What is listed is of the code, or was listed and not the last. -/
lemma contains_cases (h : l.Ended l' pre last code) (listed : l'.contains id = true) :
    (∃ k < code.length, id = ⟨l.nextId + k⟩) ∨ l.contains id = true ∧ id ≠ last.id := by
  obtain ⟨k, position⟩ := contains_iff_position?.1 listed
  obtain ⟨i, at', rfl⟩ := position?_eq_some.1 position
  cases Nat.lt_or_ge k pre.length with
  | inl before =>
    rw [h.getElem?_before before, Option.map_eq_some_iff] at at'
    obtain ⟨j, was, rfl⟩ := at'
    have other : j.id ≠ last.id := h.ne_of_lt was before
    exact .inr ⟨contains_iff_position?.2 ⟨k, position?_eq_some.2 ⟨j, was, rfl⟩⟩, other⟩
  | inr behind =>
    obtain ⟨n, c, rfl, found, rfl⟩ := h.of_behind behind at'
    exact .inl ⟨n, (List.getElem?_eq_some_iff.1 found).1, rfl⟩

/-- Of what was listed all but the last stays so. -/
lemma contains_iff (h : l.Ended l' pre last code) (was : l.contains id = true) :
    l'.contains id = true ↔ id ≠ last.id := by
  constructor
  · intro left
    obtain ⟨k, _, rfl⟩ | ⟨_, other⟩ := h.contains_cases left
    · exact absurd was not_contains_new
    · exact other
  · intro other
    obtain ⟨k, position⟩ := contains_iff_position?.1 was
    have moved := h.position? position
    rw [InstrId.replace_of_ne other] at moved
    exact contains_iff_position?.2 ⟨k, moved⟩

lemma of_position? (h : l.Ended l' pre last code) (listed : l.contains id = true)
    (there : l'.position? (id.replace last.id ⟨l.nextId⟩) = some k) : l.position? id = some k := by
  obtain ⟨k', was⟩ := contains_iff_position?.1 listed
  cases (h.position? was).symm.trans there
  exact was

/-- Control goes on from an old instruction as it did. -/
lemma of_continues (h : l.Ended l' pre last code)
    (listed : ∀ id ∈ i.targets, l.contains id = true)
    (goes : l'.Continues (i.retarget last.id ⟨l.nextId⟩) p q) : l.Continues i p q := by
  cases goes with
  | next on => exact .next on
  | target branch mem position =>
    have mem : _ ∈ (i.operand.retarget last.id ⟨l.nextId⟩).targets := mem
    rw [Operand.targets_retarget] at mem
    obtain ⟨id, named, rfl⟩ := List.mem_map.1 mem
    exact .target branch named (h.of_position? (listed id named) position)

/-- Control goes on from an old instruction to no place behind the first of the code. -/
lemma le_of_continues (h : l.Ended l' pre last code) (before : p < pre.length)
    (goes : l.Continues i p q) : q ≤ pre.length := by
  cases goes with
  | next => exact before
  | target _ _ position => exact h.le_of_position? position

end Ended
end InstructionList
end HookWeave

import HookWeave.Code.Layout
import Mathlib.Data.List.Nodup
import Mathlib.Tactic.Lemma

/-!
# Positions in instruction lists

An identity is listed at one position at most (`position?_eq_some`). The index of a list, by which
layouts look up identities, holds these positions and no others (`position_index`).
-/

namespace HookWeave
namespace InstructionList

variable {l : InstructionList} {id : InstrId} {k : Nat}

lemma getElem?_number {n : Nat} (code : List (OpCode × Operand)) :
    (number n code)[k]? = code[k]?.map fun c => ⟨⟨n + k⟩, c.1, c.2⟩ := by
  induction code generalizing n k with
  | nil => rfl
  | cons c code ih =>
    cases k with
    | zero => rfl
    | succ k =>
      rw [number, List.getElem?_cons_succ, List.getElem?_cons_succ, ih, Nat.add_right_comm]
      rfl

/-- Numbered code holds the opcodes and operands that it is made of. -/
lemma forall₂_number {n : Nat} (code : List (OpCode × Operand)) :
    List.Forall₂ (fun c i => i.op = c.1 ∧ i.operand = c.2) code (number n code) := by
  induction code generalizing n with
  | nil => exact .nil
  | cons c code ih => exact .cons ⟨rfl, rfl⟩ ih

/-- Numbered code has the identities from the number on, in their order. -/
lemma map_id_number (n : Nat) (code : List (OpCode × Operand)) :
    (number n code).map (·.id) = (List.range' n (number n code).length).map InstrId.mk := by
  induction code generalizing n with
  | nil => rfl
  | cons c code ih => exact congrArg (_ :: ·) (ih (n + 1))

/-- The position of an identity is the one at which an instruction has it. -/
lemma position?_eq_some : l.position? id = some k ↔ ∃ i, l.items[k]? = some i ∧ i.id = id := by
  rw [position?, List.findIdx?_eq_some_iff_getElem]
  constructor
  · rintro ⟨bound, found, _⟩
    exact ⟨l.items[k], List.getElem?_eq_getElem bound, of_decide_eq_true found⟩
  · rintro ⟨i, hk, rfl⟩
    obtain ⟨bound, rfl⟩ := List.getElem?_eq_some_iff.1 hk
    refine ⟨bound, decide_eq_true rfl, fun j before same => ?_⟩
    -- Two positions with one identity would contradict that identities are distinct.
    have length : (l.items.map (·.id)).length = l.items.length := List.length_map _
    have earlier : j < (l.items.map (·.id)).length := by omega
    have later : k < (l.items.map (·.id)).length := by omega
    have same : (l.items.map (·.id))[j] = (l.items.map (·.id))[k] := by
      simpa only [List.getElem_map, decide_eq_true_eq] using same
    exact Nat.ne_of_lt before ((List.getElem_inj l.nodup).1 same)

lemma position?_getElem {i : Instruction} (h : l.items[k]? = some i) :
    l.position? i.id = some k :=
  position?_eq_some.2 ⟨i, h, rfl⟩

lemma position?_of_first? {i : Instruction} (h : l.first? = some i) : l.position? i.id = some 0 :=
  position?_getElem (List.head?_eq_getElem?.symm.trans h)

/-- The instruction of an identity is the one at its position. -/
lemma get?_eq_some {i : Instruction} :
    l.get? id = some i ↔ ∃ k : Nat, l.items[k]? = some i ∧ i.id = id := by
  constructor
  · intro h
    obtain ⟨k, hk⟩ := List.mem_iff_getElem?.1 (List.mem_of_find?_eq_some h)
    have same := List.find?_some h
    exact ⟨k, hk, of_decide_eq_true same⟩
  · rintro ⟨k, hk, rfl⟩
    have listed := List.mem_of_getElem? hk
    cases h : l.get? i.id with
    | some j =>
      have same := List.find?_some h
      have same : j.id = i.id := of_decide_eq_true same
      exact congrArg some (List.inj_on_of_nodup_map l.nodup (List.mem_of_find?_eq_some h) listed same)
    | none => exact absurd (decide_eq_true rfl) (List.find?_eq_none.1 h i listed)

lemma get?_getElem {i : Instruction} (h : l.items[k]? = some i) : l.get? i.id = some i :=
  get?_eq_some.2 ⟨k, h, rfl⟩

lemma successor?_getElem {i : Instruction} (h : l.items[k]? = some i) :
    l.successor? i.id = l.items[k + 1]?.map (·.id) := by
  rw [successor?, position?_getElem h]
  show (l.items[k + 1]? >>= fun next => some next.id) = _
  cases l.items[k + 1]? with
  | some next => rfl
  | none => rfl

/-- An identity has a position if the list contains it. -/
lemma contains_iff_position? : l.contains id = true ↔ ∃ k, l.position? id = some k := by
  rw [contains, List.any_eq_true]
  constructor
  · rintro ⟨i, hi, same⟩
    obtain ⟨k, hk⟩ := List.mem_iff_getElem?.1 hi
    exact ⟨k, position?_eq_some.2 ⟨i, hk, of_decide_eq_true same⟩⟩
  · rintro ⟨k, h⟩
    obtain ⟨i, hk, rfl⟩ := position?_eq_some.1 h
    exact ⟨i, List.mem_of_getElem? hk, decide_eq_true rfl⟩

lemma get?_eq_none : l.get? id = none ↔ l.contains id = false := by
  rw [contains, List.any_eq_false]
  exact List.find?_eq_none

/-- Identities that are listed were handed out. -/
lemma lt_of_contains (h : l.contains id = true) : id.val < l.nextId := by
  obtain ⟨_, position⟩ := contains_iff_position?.1 h
  obtain ⟨i, at', rfl⟩ := position?_eq_some.1 position
  exact l.below i (List.mem_of_getElem? at')

/-- No identity that is yet to be handed out is listed. -/
lemma not_contains_new : ¬ l.contains ⟨l.nextId + k⟩ :=
  fun listed => Nat.not_lt_of_le (Nat.le_add_right _ k) (lt_of_contains listed)

/-- The index of a list holds the position of every identity. -/
lemma getElem?_index : l.index[id]? = l.position? id := by
  have keys : (l.items.map (·.id)).zipIdx.Pairwise fun a b => (a.1 == b.1) = false := by
    have fst : (l.items.map (·.id)).zipIdx.map Prod.fst = l.items.map (·.id) :=
      List.zipIdx_map_fst 0 _
    refine (List.pairwise_map.1 (fst ▸ l.nodup)).imp ?_
    intro a b different
    exact beq_eq_false_iff_ne.2 different
  cases h : l.position? id with
  | some k =>
    obtain ⟨i, hk, rfl⟩ := position?_eq_some.1 h
    refine Std.HashMap.getElem?_ofList_of_mem BEq.rfl keys ?_
    exact List.mk_mem_zipIdx_iff_getElem?.2 (by simp [hk])
  | none =>
    refine Std.HashMap.getElem?_ofList_of_contains_eq_false ?_
    rw [List.zipIdx_map_fst, ← Bool.not_eq_true, List.contains_iff_mem, List.mem_map]
    rintro ⟨i, hi, rfl⟩
    obtain ⟨k, hk⟩ := List.mem_iff_getElem?.1 hi
    rw [position?_getElem hk] at h
    cases h

/-- A look-up in the index of a list gives the position of an identity. -/
lemma index_position : l.index.position id = .ok k ↔ l.position? id = some k := by
  rw [InstructionIndex.position, getElem?_index]
  cases l.position? id with
  | some k' => simp only [Except.ok.injEq, Option.some.injEq]
  | none => simp only [reduceCtorEq]

end InstructionList
end HookWeave

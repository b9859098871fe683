import HookWeave.Proofs.Weaving.Passing

/-!
# The local for a result that is an address

Ahead of a hook that takes such a result, or may skip a target that has one, the local for it is
made to hold the address of the only element of a new array (`through_makeResult`). Nothing else is
done, and nothing but a failure of the machine to make the array or to give the address stops it
(`steady_makeResult`).
-/

namespace HookWeave
namespace Weaving

variable {M : Machine}

/-- The memory once the local for the result, if there is one, holds an address where it should. -/
inductive Prepares (w : Weaving) (result : Option M.Cell) (control : M.Control) (memory : M.Memory) :
    M.Memory → Prop where
  | needless (h : result = none ∨ w.target.ret.isByRef = false) :
      w.Prepares result control memory memory
  | fresh {cell : M.Cell} {element : TypeSig} {array address : M.Value} {made addressed : M.Memory}
      (wanted : result = some cell) (ofType : w.target.ret = .byRef element)
      (allocated : M.exec .newarr (.type element) [M.int32 1] control memory (.next [array] made))
      (found : M.exec .ldelema (.type element) [M.int32 0, array] control made
        (.next [address] addressed)) :
      w.Prepares result control memory (M.store addressed cell address)

/-- The failures of the machine that may stop the preparation. -/
inductive FailsToPrepare (w : Weaving) (result : Option M.Cell) (control : M.Control)
    (memory : M.Memory) : M.Value → M.Memory → Prop where
  | allocation {element : TypeSig} {exception : M.Value} {failed : M.Memory}
      (wanted : result.isSome) (ofType : w.target.ret = .byRef element)
      (raised : M.exec .newarr (.type element) [M.int32 1] control memory (.raise exception failed)) :
      w.FailsToPrepare result control memory exception failed
  | addressing {element : TypeSig} {array exception : M.Value} {made failed : M.Memory}
      (wanted : result.isSome) (ofType : w.target.ret = .byRef element)
      (allocated : M.exec .newarr (.type element) [M.int32 1] control memory (.next [array] made))
      (raised : M.exec .ldelema (.type element) [M.int32 0, array] control made
        (.raise exception failed)) :
      w.FailsToPrepare result control memory exception failed

variable {w : Weaving} {a : Activation M} {s s' : State M}

/-- The code that prepares the local in a slot, if there is one. -/
def preparation (w : Weaving) (slot : Option UInt16) : Code :=
  (slot.map w.makeResult).getD []

lemma does_newarr {id : InstrId} {element : TypeSig} {t : Turn M} {length : M.Value}
    {stack : List M.Value} (top : s.stack = length :: stack) :
    a.Does (.ofCode id (.newarr, .type element)) s t ↔
      (∃ array memory, t = .next (array :: stack) memory
        ∧ M.exec .newarr (.type element) [length] s.control s.memory (.next [array] memory))
      ∨ ∃ exception memory, t = .raise exception memory
        ∧ M.exec .newarr (.type element) [length] s.control s.memory (.raise exception memory) := by
  have enough : 1 ≤ s.stack.length := by
    rw [top]
    exact Nat.succ_le_succ (Nat.zero_le _)
  rw [Activation.does_exec_one rfl rfl rfl enough, top]
  rfl

lemma does_ldelema {id : InstrId} {element : TypeSig} {t : Turn M} {index array : M.Value}
    {stack : List M.Value} (top : s.stack = index :: array :: stack) :
    a.Does (.ofCode id (.ldelema, .type element)) s t ↔
      (∃ address memory, t = .next (address :: stack) memory
        ∧ M.exec .ldelema (.type element) [index, array] s.control s.memory (.next [address] memory))
      ∨ ∃ exception memory, t = .raise exception memory
        ∧ M.exec .ldelema (.type element) [index, array] s.control s.memory
          (.raise exception memory) := by
  have enough : 2 ≤ s.stack.length := by
    rw [top]
    exact Nat.succ_le_succ (Nat.succ_le_succ (Nat.zero_le _))
  rw [Activation.does_exec_one rfl rfl rfl enough, top]
  rfl

lemma does_constant {id : InstrId} {c : OpCode × Operand} {t : Turn M} {value : Int32}
    (h : (Instruction.ofCode id c).routine? = some (.constant value)) :
    a.Does (.ofCode id c) s t ↔ t = .next (M.int32 value :: s.stack) s.memory := by
  rw [Activation.does_routine h, Activation.turn]

lemma makeResult_byRef {element : TypeSig} {slot : UInt16} (h : w.target.ret = .byRef element) :
    w.makeResult slot = [(.ldcI4_1, .none), (.newarr, .type element), (.ldcI4_0, .none),
      (.ldelema, .type element), ShortForm.storeLocal slot] := by
  unfold makeResult
  rw [h]
  rfl

lemma makeResult_value {slot : UInt16} (h : w.target.ret.isByRef = false) : w.makeResult slot = [] := by
  unfold makeResult
  cases kind : w.target.ret with
  | byRef element =>
    rw [kind] at h
    cases h
  | _ => rfl

lemma eq_byRef_of_isByRef (h : w.target.ret.isByRef = true) :
    ∃ element, w.target.ret = .byRef element := by
  cases kind : w.target.ret with
  | byRef element => exact ⟨element, rfl⟩
  | _ =>
    rw [kind] at h
    cases h

/-- The code that makes a new cell runs through with its address in the local. -/
lemma through_makeResult {slot : UInt16} {cell : M.Cell} {element : TypeSig}
    (local' : a.locals[slot.toNat]? = some cell) (ofType : w.target.ret = .byRef element) :
    a.Through (w.makeResult slot) s s' ↔
      ∃ memory, w.Prepares (some cell) s.control s.memory memory
        ∧ s' = s.becomes s.stack memory := by
  rw [makeResult_byRef ofType]
  constructor
  · rintro ⟨_, _, one, _, _, new, _, _, zero, _, _, first, _, _, stored, rfl⟩
    cases (does_constant rfl).1 one
    obtain ⟨array, made, same, allocated⟩ | ⟨_, _, same, _⟩ := (does_newarr rfl).1 new
    · cases same
      cases (does_constant rfl).1 zero
      obtain ⟨address, addressed, same', found⟩ | ⟨_, _, same', _⟩ := (does_ldelema rfl).1 first
      · cases same'
        cases (Activation.does_storeLocal local' rfl).1 stored
        exact ⟨_, .fresh rfl ofType allocated found, rfl⟩
      · cases same'
    · cases same
  · rintro ⟨memory, prepared, rfl⟩
    cases prepared with
    | needless h =>
      rw [ofType] at h
      cases h with
      | inl none => cases none
      | inr value => cases value
    | fresh wanted ofType' allocated found =>
      cases wanted
      cases ofType.symm.trans ofType'
      exact ⟨_, _, (does_constant rfl).2 rfl,
        _, _, (does_newarr rfl).2 (.inl ⟨_, _, rfl, allocated⟩),
        _, _, (does_constant rfl).2 rfl,
        _, _, (does_ldelema rfl).2 (.inl ⟨_, _, rfl, found⟩),
        _, _, (Activation.does_storeLocal local' rfl).2 rfl, rfl⟩

/-- Nothing but a failure of the machine stops the code that makes a new cell. -/
lemma steady_makeResult {slot : UInt16} {cell : M.Cell} {element : TypeSig}
    (local' : a.locals[slot.toNat]? = some cell) (ofType : w.target.ret = .byRef element) :
    a.Steady (w.FailsToPrepare (some cell) s.control s.memory) (w.makeResult slot) s := by
  rw [makeResult_byRef ofType]
  intro t one
  cases (does_constant rfl).1 one
  refine .inl ⟨_, _, rfl, fun t new => ?_⟩
  obtain ⟨array, made, rfl, allocated⟩ | ⟨_, _, rfl, raised⟩ := (does_newarr rfl).1 new
  · refine .inl ⟨_, _, rfl, fun t zero => ?_⟩
    cases (does_constant rfl).1 zero
    refine .inl ⟨_, _, rfl, fun t first => ?_⟩
    obtain ⟨address, addressed, rfl, found⟩ | ⟨_, _, rfl, raised⟩ := (does_ldelema rfl).1 first
    · refine .inl ⟨_, _, rfl, fun t stored => ?_⟩
      cases (Activation.does_storeLocal local' rfl).1 stored
      exact .inl ⟨_, _, rfl, trivial⟩
    · exact .inr ⟨_, _, rfl, .addressing rfl ofType allocated raised⟩
  · exact .inr ⟨_, _, rfl, .allocation rfl ofType raised⟩

lemma prepares_of_needless {result : Option M.Cell} {control : M.Control} {memory memory' : M.Memory}
    (h : result = none ∨ w.target.ret.isByRef = false) :
    w.Prepares result control memory memory' ↔ memory' = memory := by
  constructor
  · intro prepared
    cases prepared with
    | needless => rfl
    | fresh wanted ofType =>
      rw [wanted, ofType] at h
      cases h with
      | inl none => cases none
      | inr value => cases value
  · rintro rfl
    exact .needless h

variable {slot : Option UInt16} {result : Option M.Cell}

/-- The code that prepares the local for the result runs through with the memory prepared. -/
lemma through_preparation
    (cells : Option.Rel (fun slot cell => a.locals[slot.toNat]? = some cell) slot result) :
    a.Through (w.preparation slot) s s' ↔
      ∃ memory, w.Prepares result s.control s.memory memory ∧ s' = s.becomes s.stack memory := by
  by_cases needless : result = none ∨ w.target.ret.isByRef = false
  · have empty : w.preparation slot = [] := by
      cases cells with
      | none => rfl
      | some => exact makeResult_value (needless.resolve_left (Option.some_ne_none _))
    rw [empty]
    constructor
    · rintro rfl
      exact ⟨_, .needless needless, rfl⟩
    · rintro ⟨memory, prepared, rfl⟩
      cases (prepares_of_needless needless).1 prepared
      rfl
  · rw [not_or, Bool.not_eq_false] at needless
    obtain ⟨element, ofType⟩ := eq_byRef_of_isByRef needless.2
    cases cells with
    | none => exact absurd rfl needless.1
    | some found => exact through_makeResult found ofType

/-- Nothing but a failure of the machine stops the code that prepares the local for the result. -/
lemma steady_preparation
    (cells : Option.Rel (fun slot cell => a.locals[slot.toNat]? = some cell) slot result) :
    a.Steady (w.FailsToPrepare result s.control s.memory) (w.preparation slot) s := by
  by_cases value : w.target.ret.isByRef = false
  · cases cells with
    | none => exact trivial
    | some found =>
      show a.Steady _ (w.makeResult _) s
      rw [makeResult_value value]
      exact trivial
  · rw [Bool.not_eq_false] at value
    obtain ⟨element, ofType⟩ := eq_byRef_of_isByRef value
    cases cells with
    | none => exact trivial
    | some found => exact steady_makeResult found ofType

lemma plain_preparation (w : Weaving) (slot : Option UInt16) (returnsValue : Bool) (d : Nat) :
    (∀ c ∈ w.preparation slot, Plain c) ∧ Lifts returnsValue (w.preparation slot) d d := by
  cases slot with
  | none => exact ⟨List.forall_mem_nil _, rfl⟩
  | some slot =>
    show (∀ c ∈ w.makeResult slot, Plain c) ∧ Lifts returnsValue (w.makeResult slot) d d
    by_cases value : w.target.ret.isByRef = false
    · rw [makeResult_value value]
      exact ⟨List.forall_mem_nil _, rfl⟩
    · rw [Bool.not_eq_false] at value
      obtain ⟨element, ofType⟩ := eq_byRef_of_isByRef value
      rw [makeResult_byRef ofType]
      constructor
      · simp only [List.forall_mem_cons]
        exact ⟨⟨rfl, rfl⟩, ⟨rfl, rfl⟩, ⟨rfl, rfl⟩, ⟨rfl, rfl⟩, ShortForm.plain_storeLocal slot,
          List.forall_mem_nil _⟩
      · exact ⟨_, rfl, _, rfl, _, rfl, _, rfl, _, ShortForm.stackEffect_storeLocal slot returnsValue ⟨0⟩,
          rfl⟩

end Weaving
end HookWeave

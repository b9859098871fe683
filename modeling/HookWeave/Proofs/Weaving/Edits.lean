import HookWeave.Code.Body
import HookWeave.Proofs.Code.Edits

/-!
# Edits that go well

What a list holds after code was inserted before an instruction (`items_insertAll`), after code was
added behind the last one (`items_pushAll`), and after the last of its old instructions was taken
out then (`MethodBody.removeInstruction_of_ok`).
-/

namespace HookWeave

variable {α β : Type} {l l' : InstructionList} {id : InstrId} {op : OpCode} {operand : Operand}
  {code : List (OpCode × Operand)} {pre rest : List Instruction}

lemma edit_discard_eq_ok {σ : Type} {x : EStateM Fault σ α} {s s' : σ} {u : PUnit} :
    (discard x) s = .ok u s' ↔ ∃ a, x s = .ok a s' := by
  show EStateM.map (fun _ => PUnit.unit) x s = _ ↔ _
  rw [EStateM.map]
  cases x s with
  | ok a s₁ =>
    constructor
    · intro h
      cases h
      exact ⟨a, rfl⟩
    · rintro ⟨a', same⟩
      cases same
      rfl
  | error e s₁ =>
    constructor
    · intro h
      cases h
    · rintro ⟨a', same⟩
      cases same

namespace InstructionList

/-! ## Insertion -/

/-- Instructions inserted one by one before another stand before it in their order. -/
lemma items_insertAll {u : PUnit}
    (h : (code.forM fun c => discard (insertBefore id c.1 c.2) : Edit PUnit) l = .ok u l')
    (split : l.items = pre ++ rest) (first : rest.head?.map (·.id) = some id) :
    l'.items = pre ++ number l.nextId code ++ rest := by
  induction code generalizing l pre with
  | nil =>
    cases h
    rw [number, List.append_nil]
    exact split
  | cons c code ih =>
    obtain ⟨_, l₁, discarded, others⟩ := edit_bind_eq_ok.1 h
    obtain ⟨new, before⟩ := edit_discard_eq_ok.1 discarded
    obtain ⟨k, l₀, anchored, inserted⟩ := edit_bind_eq_ok.1 before
    obtain ⟨position, rfl⟩ := anchor_eq_ok.1 anchored
    obtain ⟨_, rfl, _⟩ := insert_eq_ok.1 inserted
    obtain ⟨i, head, rfl⟩ := Option.map_eq_some_iff.1 first
    have at' : l₀.items[pre.length]? = some i := by
      rw [split, List.getElem?_append_right (Nat.le_refl _), Nat.sub_self, ← List.head?_eq_getElem?]
      exact head
    cases (position?_getElem at').symm.trans position
    have split' : (l₀.insertAt pre.length c.1 c.2).items
        = (pre ++ [⟨⟨l₀.nextId⟩, c.1, c.2⟩]) ++ rest := by
      rw [items_insertAt split, List.append_assoc]
      rfl
    rw [ih others split', List.append_assoc pre]
    rfl

/-! ## Addition -/

/-- Instructions added one by one stand behind the others in their order. -/
lemma items_pushAll (l : InstructionList) (code : List (OpCode × Operand)) :
    (l.pushAll code).items = l.items ++ number l.nextId code := by
  induction code generalizing l with
  | nil =>
    rw [number, List.append_nil]
    rfl
  | cons c code ih =>
    show ((l.push c.1 c.2).pushAll code).items = _
    rw [ih]
    show (l.items ++ [_]) ++ number (l.nextId + 1) code = _
    rw [List.append_assoc]
    rfl

end InstructionList

lemma MethodBody.apply_eq_ok {b b' : MethodBody} {edit : MethodBody.Edit α} :
    b.apply edit = .ok b' ↔ ∃ a, edit b = .ok a b' := by
  rw [MethodBody.apply]
  cases edit b with
  | ok a b₁ =>
    constructor
    · intro h
      cases h
      exact ⟨a, rfl⟩
    · rintro ⟨a', same⟩
      cases same
      rfl
  | error e b₁ =>
    constructor
    · intro h
      cases h
    · rintro ⟨a', same⟩
      cases same

lemma MethodBody.editInstructions_eq_ok {b b' : MethodBody} {edit : InstructionList.Edit α} {a : α} :
    MethodBody.editInstructions edit b = .ok a b'
      ↔ ∃ l, edit b.instructions = .ok a l ∧ b' = { b with instructions := l } := by
  rw [MethodBody.editInstructions]
  cases edit b.instructions with
  | ok a' l =>
    constructor
    · intro h
      cases h
      exact ⟨l, rfl, rfl⟩
    · rintro ⟨l', same, rfl⟩
      cases same
      rfl
  | error e l =>
    constructor
    · intro h
      cases h
    · rintro ⟨l', same, _⟩
      cases same

/-- A removal from a list that goes well goes well in a body, unless a clause starts at the last
instruction. -/
lemma MethodBody.removeInstruction_of_ok {b : MethodBody} {removed : Instruction}
    (done : InstructionList.remove id b.instructions = .ok removed l)
    (free : b.instructions.successor? id = none → b.clauses.any (·.startsAt id) = false) :
    MethodBody.removeInstruction id b = .ok removed { b with
      instructions := l
      clauses := b.clauses.map (·.retarget id (b.instructions.successor? id)) } := by
  have open' : ((b.instructions.successor? id).isNone && b.clauses.any (·.startsAt id)) = false := by
    cases next : b.instructions.successor? id with
    | none => exact free next
    | some next => rfl
  rw [MethodBody.removeInstruction, edit_get_bind]
  simp only [open', Bool.false_eq_true, if_false]
  exact edit_bind_eq_ok.2 ⟨_, _, MethodBody.editInstructions_eq_ok.2 ⟨l, done, rfl⟩, rfl⟩

/-- A removal that goes well, of an instruction with one behind it, hands on the branches and the
boundaries of clauses to that one. -/
lemma MethodBody.of_removeInstruction_eq_ok {b b' : MethodBody} {removed : Instruction}
    {next : InstrId} (h : MethodBody.removeInstruction id b = .ok removed b')
    (behind : b.instructions.successor? id = some next) :
    b' = { b with
      instructions := (b.instructions.retarget id next).erase id
      clauses := b.clauses.map (·.retarget id (some next)) } := by
  obtain ⟨i, _, done⟩ := InstructionList.remove_of_successor? behind
  have removes := MethodBody.removeInstruction_of_ok done fun none => by cases none.symm.trans behind
  rw [behind] at removes
  cases removes.symm.trans h
  rfl

end HookWeave

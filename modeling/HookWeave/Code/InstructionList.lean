import HookWeave.Fault

/-!
# Instruction lists

The instructions of a body in order. Identities are handed out by the list: no two of its
instructions share one, and every identity yet to come is greater than all that were handed out.
Edits that can fail are `InstructionList.Edit`s. Removing an instruction hands the branches to it
on to the instruction after it.
-/

namespace HookWeave

/-- The instructions of a body. -/
structure InstructionList where
  items : List Instruction
  /-- The identity that the next instruction gets. Identities are 32-bit integers, so that a list hands
  out fewer than 2^32 of them; here they are counted on. -/
  nextId : Nat
  nodup : (items.map (·.id)).Nodup
  below : ∀ i ∈ items, i.id.val < nextId

namespace InstructionList

instance : DecidableEq InstructionList := fun a b =>
  if h : a.items = b.items ∧ a.nextId = b.nextId then
    .isTrue (by cases a; cases b; simp_all)
  else .isFalse fun e => h (by simp [e])

/-- The list without instructions. -/
def empty : InstructionList := ⟨[], 0, by simp, by simp⟩

/-- Code with identities from `n` on. -/
def number : Nat → List (OpCode × Operand) → List Instruction
  | _, [] => []
  | n, (op, operand) :: code => ⟨⟨n⟩, op, operand⟩ :: number (n + 1) code

theorem le_of_mem_number {n : Nat} {code : List (OpCode × Operand)} {i : Instruction}
    (h : i ∈ number n code) : n ≤ i.id.val ∧ i.id.val < n + code.length := by
  induction code generalizing n with
  | nil => simp [number] at h
  | cons c code ih =>
    rcases List.mem_cons.1 h with rfl | h
    · simp
    · have := ih h
      simp only [List.length_cons]
      omega

theorem nodup_number (n : Nat) (code : List (OpCode × Operand)) :
    ((number n code).map (·.id)).Nodup := by
  induction code generalizing n with
  | nil => simp [number]
  | cons c code ih =>
    simp only [number, List.map_cons, List.nodup_cons, List.mem_map, not_exists, not_and]
    refine ⟨fun i hi e => ?_, ih (n + 1)⟩
    have := (le_of_mem_number hi).1
    rw [e] at this
    exact Nat.not_succ_le_self n this

/-- Code as a list, with the identities 0, 1, 2 and so on. -/
def ofCode (code : List (OpCode × Operand)) : InstructionList where
  items := number 0 code
  nextId := code.length
  nodup := nodup_number 0 code
  below i h := by simpa using (le_of_mem_number h).2

/-- The number of instructions. -/
def size (l : InstructionList) : Nat :=
  l.items.length

/-- The list holds no instruction. -/
def isEmpty (l : InstructionList) : Bool :=
  l.items.isEmpty

/-- The first instruction. -/
def first? (l : InstructionList) : Option Instruction :=
  l.items.head?

/-- The last instruction. -/
def last? (l : InstructionList) : Option Instruction :=
  l.items.getLast?

/-- The position of an instruction. -/
def position? (l : InstructionList) (id : InstrId) : Option Nat :=
  l.items.findIdx? (·.id = id)

/-- An instruction by its identity. -/
def get? (l : InstructionList) (id : InstrId) : Option Instruction :=
  l.items.find? (·.id = id)

/-- An instruction has that identity. -/
def contains (l : InstructionList) (id : InstrId) : Bool :=
  l.items.any (·.id = id)

/-- The identity of the instruction after one. -/
def successor? (l : InstructionList) (id : InstrId) : Option InstrId := do
  let index ← l.position? id
  let next ← l.items[index + 1]?
  return next.id

/-- Some branch names the identity. -/
def isTargeted (l : InstructionList) (id : InstrId) : Bool :=
  l.items.any (·.targets.contains id)

/-- Fails unless all targets of an operand are listed; `source` is the instruction to blame. -/
def checkTargets (l : InstructionList) (source : InstrId) (operand : Operand) :
    Except Fault Unit :=
  match operand.targets.find? (!l.contains ·) with
  | some target => .error (.branch (.danglingTarget source target))
  | none => .ok ()

/-- Fails unless every branch names listed instructions only. -/
def validateTargets (l : InstructionList) : Except Fault Unit :=
  l.items.forM fun i => l.checkTargets i.id i.operand

/-- How often branches name an identity. -/
def targetCount (l : InstructionList) (id : InstrId) : Nat :=
  (l.items.flatMap (·.targets)).count id

/-- Replaces an identity by another in every branch. -/
def retarget (l : InstructionList) (old new : InstrId) : InstructionList where
  items := l.items.map (·.retarget old new)
  nextId := l.nextId
  nodup := by simpa [Function.comp_def, Instruction.retarget] using l.nodup
  below i h := by
    obtain ⟨j, hj, rfl⟩ := List.mem_map.1 h
    exact l.below j hj

/-- Adds an instruction behind the last. Its targets are not checked, for the instructions that it
branches to may still be missing. -/
def push (l : InstructionList) (op : OpCode) (operand : Operand) : InstructionList where
  items := l.items ++ [⟨⟨l.nextId⟩, op, operand⟩]
  nextId := l.nextId + 1
  nodup := by
    simp only [List.map_append, List.map_cons, List.map_nil]
    refine List.nodup_append.2 ⟨l.nodup, by simp, fun a ha b hb e => ?_⟩
    obtain ⟨i, hi, rfl⟩ := List.mem_map.1 ha
    have := l.below i hi
    simp [← e] at hb
    simp [hb] at this
  below i h := by
    rcases List.mem_append.1 h with h | h
    · exact Nat.lt_succ_of_lt (l.below i h)
    · simp at h
      simp [h]

/-- Adds several instructions behind the last. -/
def pushAll (l : InstructionList) (code : List (OpCode × Operand)) : InstructionList :=
  code.foldl (fun l c => l.push c.1 c.2) l

/-- Takes the next identity without using it. -/
def skipId (l : InstructionList) : InstructionList where
  items := l.items
  nextId := l.nextId + 1
  nodup := l.nodup
  below i h := Nat.lt_succ_of_lt (l.below i h)

/-- Puts a new instruction at a position. -/
def insertAt (l : InstructionList) (index : Nat) (op : OpCode) (operand : Operand) :
    InstructionList where
  items := l.items.take index ++ ⟨⟨l.nextId⟩, op, operand⟩ :: l.items.drop index
  nextId := l.nextId + 1
  nodup := by
    have h := (l.push op operand).nodup
    refine (List.Perm.nodup_iff (List.Perm.map _ ?_)).1 h
    refine (List.perm_append_singleton _ _).trans ?_
    refine .trans ?_ List.perm_middle.symm
    rw [List.take_append_drop]
  below i h := by
    rcases List.mem_append.1 h with h | h
    · exact Nat.lt_succ_of_lt (l.below i (List.mem_of_mem_take h))
    · rcases List.mem_cons.1 h with rfl | h
      · simp
      · exact Nat.lt_succ_of_lt (l.below i (List.mem_of_mem_drop h))

/-- The list without an instruction. -/
def erase (l : InstructionList) (id : InstrId) : InstructionList where
  items := l.items.filter (·.id ≠ id)
  nextId := l.nextId
  nodup := l.nodup.sublist (List.filter_sublist.map _)
  below i h := l.below i (List.mem_filter.1 h).1

/-! ## Edits that can fail -/

/-- An edit of a list. What it did before it fails stays done. -/
abbrev Edit := EStateM Fault InstructionList

/-- The position of an instruction that an edit refers to. -/
def anchor (id : InstrId) : Edit Nat := do
  match (← get).position? id with
  | some index => return index
  | none => throw (.branch (.unlisted id))

/-- Puts a new instruction at a position and gives its identity, which is taken in any case. -/
def insert (index : Nat) (op : OpCode) (operand : Operand) : Edit InstrId := do
  let l ← get
  let id : InstrId := ⟨l.nextId⟩
  match l.checkTargets id operand with
  | .ok () =>
    set (l.insertAt index op operand)
    return id
  | .error e =>
    set l.skipId
    throw e

/-- Puts a new instruction before another. Branches to the other stay there. -/
def insertBefore (before : InstrId) (op : OpCode) (operand : Operand) : Edit InstrId := do
  insert (← anchor before) op operand

/-- Puts a new instruction behind another. -/
def insertAfter (after : InstrId) (op : OpCode) (operand : Operand) : Edit InstrId := do
  insert ((← anchor after) + 1) op operand

/-- Takes an instruction out of the list. Branches to it go to the instruction after it; the last
instruction stays if a branch goes there. -/
def remove (id : InstrId) : Edit Instruction := do
  let index ← anchor id
  let l ← get
  match l.items[index + 1]? with
  | some next => set (l.retarget id next.id)
  | none =>
    if l.isTargeted id then
      throw (.branch (.targetWithoutSuccessor id))
  let l ← get
  match l.get? id with
  | some removed =>
    set (l.erase id)
    return removed
  | none => throw (.branch (.unlisted id))

end InstructionList

end HookWeave

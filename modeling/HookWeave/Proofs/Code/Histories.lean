import HookWeave.Proofs.Code.Edits

/-!
# Histories of edits

A list that starts empty is edited by one call after another, some of which are refused
(`InstructionList.Reached`). What a call does that goes well is said of the instructions themselves
(`InstructionList.Effect`): it puts one instruction next to another, or takes one out and hands the
branches to it on, and leaves all else as it was. No identity is handed out twice, for those that were
handed out lie below the next one (`InstructionList.Consistent`), and no branch is left without its target
by a call that does not ask for it (`InstructionList.Effect.targetsListed`).
-/

namespace HookWeave
namespace InstructionList

/-- A call that edits a list. -/
inductive Call where
  | push (op : OpCode) (operand : Operand)
  | insertBefore (before : InstrId) (op : OpCode) (operand : Operand)
  | insertAfter (after : InstrId) (op : OpCode) (operand : Operand)
  | remove (id : InstrId)
  | retarget (old new : InstrId)

/-- What a call gives that goes well. -/
inductive Reply where
  /-- The identity of the new instruction. -/
  | created (id : InstrId)
  /-- The instruction that was taken out. -/
  | removed (i : Instruction)
  /-- How many targets were replaced. -/
  | retargeted (count : Nat)

/-- Makes a call. -/
def Call.run : Call → Edit Reply
  | .push op operand => do
    let l ← get
    set (l.push op operand)
    return .created ⟨l.nextId⟩
  | .insertBefore before op operand => do
    return .created (← InstructionList.insertBefore before op operand)
  | .insertAfter after op operand => do
    return .created (← InstructionList.insertAfter after op operand)
  | .remove id => do
    return .removed (← InstructionList.remove id)
  | .retarget old new => do
    let l ← get
    set (l.retarget old new)
    return .retargeted (l.targetCount old)

/-- How many instructions a call creates, whether or not they get into the list. -/
def Call.creations : Call → Nat
  | .push .. | .insertBefore .. | .insertAfter .. => 1
  | .remove _ | .retarget .. => 0

/-- What a call does to a list that goes well. -/
inductive Effect (l l' : InstructionList) : Call → Reply → Prop
  | push {op : OpCode} {operand : Operand} {new : InstrId} :
    l'.items = l.items ++ [⟨new, op, operand⟩] →
    Effect l l' (.push op operand) (.created new)
  | insertBefore {pre post : List Instruction} {i : Instruction} {op : OpCode} {operand : Operand}
      {new : InstrId} :
    l.items = pre ++ i :: post →
    (∀ id ∈ operand.targets, l.contains id = true) →
    l'.items = pre ++ ⟨new, op, operand⟩ :: i :: post →
    Effect l l' (.insertBefore i.id op operand) (.created new)
  | insertAfter {pre post : List Instruction} {i : Instruction} {op : OpCode} {operand : Operand}
      {new : InstrId} :
    l.items = pre ++ i :: post →
    (∀ id ∈ operand.targets, l.contains id = true) →
    l'.items = pre ++ i :: ⟨new, op, operand⟩ :: post →
    Effect l l' (.insertAfter i.id op operand) (.created new)
  | remove {pre post : List Instruction} {i next : Instruction} :
    l.items = pre ++ i :: next :: post →
    l'.items = (pre ++ next :: post).map (·.retarget i.id next.id) →
    Effect l l' (.remove i.id) (.removed (i.retarget i.id next.id))
  | removeLast {pre : List Instruction} {i : Instruction} :
    l.items = pre ++ [i] →
    l.isTargeted i.id = false →
    l'.items = pre →
    Effect l l' (.remove i.id) (.removed i)
  | retarget {old new : InstrId} :
    l'.items = l.items.map (·.retarget old new) →
    Effect l l' (.retarget old new) (.retargeted (l.targetCount old))

/-- All targets of branches and jump tables are listed. -/
def TargetsListed (l : InstructionList) : Prop :=
  ∀ i ∈ l.items, ∀ id ∈ i.targets, l.contains id = true

/-- The call names only listed instructions as targets. Insertions see to that themselves. -/
def Call.Listed (l : InstructionList) : Call → Prop
  | .push _ operand => ∀ id ∈ operand.targets, l.contains id = true
  | .retarget _ new => l.contains new = true
  | .insertBefore .. | .insertAfter .. | .remove _ => True

/-! ## Histories -/

/-- The calls that were made, the latest first, each with its outcome. -/
abbrev History := List (Call × Except Fault Reply)

namespace History

/-- The identities that were handed out. -/
def handedOut (history : History) : List InstrId :=
  history.filterMap fun
    | (_, .ok (.created id)) => some id
    | _ => none

/-- The identities of the instructions that were taken out. -/
def takenOut (history : History) : List InstrId :=
  history.filterMap fun
    | (_, .ok (.removed i)) => some i.id
    | _ => none

/-- The number of instructions that were created. -/
def creations : History → Nat
  | [] => 0
  | (c, _) :: history => c.creations + creations history

end History

/-- The list is what a history of calls makes of the empty list. -/
inductive Reached : History → InstructionList → Prop
  | start : Reached [] empty
  | ok {history : History} {l l' : InstructionList} {c : Call} {reply : Reply} :
    Reached history l →
    c.run l = .ok reply l' →
    Reached ((c, .ok reply) :: history) l'
  | error {history : History} {l l' : InstructionList} {c : Call} {e : Fault} :
    Reached history l →
    c.run l = .error e l' →
    Reached ((c, .error e) :: history) l'

variable {l l' : InstructionList} {c : Call} {reply : Reply} {id : InstrId} {e : Fault}
  {history : History}

/-! ## Single calls -/

/-- A call that goes well has its effect. -/
lemma effect_of_run (h : c.run l = .ok reply l') : Effect l l' c reply := by
  cases c with
  | push op operand =>
    cases h
    exact .push rfl
  | insertBefore before op operand =>
    obtain ⟨new, l₁, inserted, h⟩ := edit_bind_eq_ok.1 h
    cases h
    obtain ⟨e, refused | refused⟩ | ⟨pre, i, post, split, rfl, listed, done⟩ :=
      insertion_cases id before op operand l inserted
    · cases refused
    · cases refused
    · cases done
      exact .insertBefore split listed (items_insertAt split)
  | insertAfter after op operand =>
    obtain ⟨new, l₁, inserted, h⟩ := edit_bind_eq_ok.1 h
    cases h
    obtain ⟨e, refused | refused⟩ | ⟨pre, i, post, split, rfl, listed, done⟩ :=
      insertion_cases (· + 1) after op operand l inserted
    · cases refused
    · cases refused
    · cases done
      refine .insertAfter split listed ?_
      have split' : l.items = (pre ++ [i]) ++ post := by
        rw [split, List.append_assoc]
        rfl
      have items : (l.insertAt (pre ++ [i]).length op operand).items = _ := items_insertAt split'
      rw [List.length_append, List.append_assoc] at items
      exact items
  | remove id =>
    obtain ⟨removed, l₁, done, h⟩ := edit_bind_eq_ok.1 h
    cases h
    obtain ⟨e, refused⟩ | ⟨pre, i, next, post, split, rfl, goes⟩ | ⟨pre, i, split, rfl, free, goes⟩ :=
      remove_cases id l
    · cases refused.symm.trans done
    · cases goes.symm.trans done
      refine .remove split ?_
      have moved : (l.retarget i.id next.id).items = pre.map (·.retarget i.id next.id)
          ++ i.retarget i.id next.id :: (next :: post).map (·.retarget i.id next.id) := by
        rw [items_retarget, split, List.map_append, List.map_cons]
      rw [List.map_append]
      exact items_erase moved rfl
    · cases goes.symm.trans done
      refine .removeLast split free ?_
      rw [items_erase split rfl, List.append_nil]
  | retarget old new =>
    cases h
    exact .retarget rfl

/-- An insertion that goes well takes the next identity for the new instruction. -/
lemma nextId_of_insertion (place : Nat → Nat) {at' : InstrId} {op : OpCode} {operand : Operand}
    (h : (anchor at' >>= fun k => insert (place k) op operand) l = .ok id l') :
    id = ⟨l.nextId⟩ ∧ l'.nextId = l.nextId + 1 := by
  obtain ⟨e, refused | refused⟩ | ⟨pre, i, post, _, _, _, done⟩ :=
    insertion_cases place at' op operand l h
  · cases refused
  · cases refused
  · cases done
    exact ⟨rfl, rfl⟩

/-- An insertion that is refused costs an identity at most. -/
lemma of_insertion_eq_error (place : Nat → Nat) {at' : InstrId} {op : OpCode} {operand : Operand}
    (h : ((anchor at' >>= fun k => insert (place k) op operand) >>= fun new => pure (.created new) :
      Edit Reply) l = .error e l') :
    l'.items = l.items ∧ l.nextId ≤ l'.nextId ∧ l'.nextId ≤ l.nextId + 1 := by
  obtain ⟨e, refused | refused⟩ | ⟨pre, i, post, _, _, _, done⟩ :=
    insertion_cases place at' op operand l rfl
  · cases (bind_of_error refused).symm.trans h
    exact ⟨rfl, Nat.le_refl _, Nat.le_succ _⟩
  · cases (bind_of_error refused).symm.trans h
    exact ⟨rfl, Nat.le_succ _, Nat.le_refl _⟩
  · cases (bind_of_ok done).symm.trans h

/-- A call that goes well creates an instruction under the next identity, or none. -/
lemma nextId_of_run (h : c.run l = .ok reply l') :
    l'.nextId = l.nextId + c.creations ∧ ∀ id, reply = .created id → id = ⟨l.nextId⟩ ∧ c.creations = 1 := by
  cases c with
  | push op operand =>
    cases h
    refine ⟨rfl, fun id same => ?_⟩
    cases same
    exact ⟨rfl, rfl⟩
  | insertBefore before op operand =>
    obtain ⟨new, l₁, inserted, h⟩ := edit_bind_eq_ok.1 h
    cases h
    obtain ⟨rfl, next⟩ := nextId_of_insertion id inserted
    refine ⟨next, fun id same => ?_⟩
    cases same
    exact ⟨rfl, rfl⟩
  | insertAfter after op operand =>
    obtain ⟨new, l₁, inserted, h⟩ := edit_bind_eq_ok.1 h
    cases h
    obtain ⟨rfl, next⟩ := nextId_of_insertion (· + 1) inserted
    refine ⟨next, fun id same => ?_⟩
    cases same
    exact ⟨rfl, rfl⟩
  | remove id =>
    obtain ⟨removed, l₁, done, h⟩ := edit_bind_eq_ok.1 h
    cases h
    refine ⟨?_, fun id same => by cases same⟩
    obtain ⟨e, refused⟩ | ⟨pre, i, next, post, _, _, goes⟩ | ⟨pre, i, _, _, _, goes⟩ :=
      remove_cases id l
    · cases refused.symm.trans done
    · cases goes.symm.trans done
      rfl
    · cases goes.symm.trans done
      rfl
  | retarget old new =>
    cases h
    exact ⟨rfl, fun id same => by cases same⟩

/-- A call that is refused costs an identity at most. -/
lemma of_run_eq_error (h : c.run l = .error e l') :
    l'.items = l.items ∧ l.nextId ≤ l'.nextId ∧ l'.nextId ≤ l.nextId + c.creations := by
  cases c with
  | push op operand => cases h
  | insertBefore before op operand => exact of_insertion_eq_error id h
  | insertAfter after op operand => exact of_insertion_eq_error (· + 1) h
  | remove id =>
    obtain ⟨e, refused⟩ | ⟨pre, i, next, post, _, _, goes⟩ | ⟨pre, i, _, _, _, goes⟩ :=
      remove_cases id l
    · cases (bind_of_error refused).symm.trans h
      exact ⟨rfl, Nat.le_refl _, Nat.le_refl _⟩
    · cases (bind_of_ok goes).symm.trans h
    · cases (bind_of_ok goes).symm.trans h
  | retarget old new => cases h

/-! ## Identities -/

/-- A call that gives a new identity adds one instruction under it. -/
lemma Effect.perm_of_created (h : Effect l l' c (.created id)) :
    ∃ i : Instruction, i.id = id ∧ l'.items.Perm (i :: l.items)
      ∧ (c.Listed l → ∀ id ∈ i.targets, l.contains id = true) := by
  cases h with
  | @push op operand _ placed =>
    refine ⟨⟨id, op, operand⟩, rfl, ?_, fun listed => listed⟩
    rw [placed]
    exact List.perm_append_singleton _ _
  | @insertBefore pre post i op operand _ split targets placed =>
    refine ⟨⟨id, op, operand⟩, rfl, ?_, fun _ => targets⟩
    rw [placed, split]
    exact List.perm_middle
  | @insertAfter pre post i op operand _ split targets placed =>
    refine ⟨⟨id, op, operand⟩, rfl, ?_, fun _ => targets⟩
    rw [placed, split]
    exact ((List.Perm.swap _ _ _).append_left pre).trans List.perm_middle

lemma contains_of_perm {new : Instruction} (grown : l'.items.Perm (new :: l.items)) :
    l'.contains id = true ↔ id = new.id ∨ l.contains id = true := by
  rw [contains_iff_mem, contains_iff_mem, (grown.map (·.id)).mem_iff, List.map_cons, List.mem_cons]

lemma contains_of_renamed {old new : InstrId} {rest : List Instruction}
    (renamed : l'.items = rest.map (·.retarget old new)) :
    l'.contains id = true ↔ id ∈ rest.map (·.id) := by
  rw [contains_iff_mem, renamed, List.map_map]
  rfl

/-- An identity is listed after a call only if it was before or is the one that the call gives. -/
lemma Effect.contains_or_created (h : Effect l l' c reply) (listed : l'.contains id = true) :
    l.contains id = true ∨ reply = .created id := by
  cases reply with
  | created new =>
    obtain ⟨i, rfl, grown, _⟩ := h.perm_of_created
    obtain rfl | old := (contains_of_perm grown).1 listed
    · exact .inr rfl
    · exact .inl old
  | removed i =>
    rw [contains_iff_mem]
    cases h with
    | @remove pre post i next split renamed =>
      have fewer := ((List.sublist_cons_self i (next :: post)).append_left pre).map (·.id)
      rw [split]
      exact .inl (fewer.subset ((contains_of_renamed renamed).1 listed))
    | removeLast split _ left =>
      rw [contains_iff_mem, left] at listed
      rw [split, List.map_append]
      exact .inl (List.mem_append_left _ listed)
  | retargeted count =>
    cases h with
    | retarget renamed => exact .inl (contains_iff_mem.2 ((contains_of_renamed renamed).1 listed))

/-- What is taken out was listed. -/
lemma Effect.contains_removed {i : Instruction} (h : Effect l l' c (.removed i)) :
    l.contains i.id = true := by
  rw [contains_iff_mem]
  cases h with
  | remove split _ =>
    rw [split, List.map_append]
    exact List.mem_append_right _ List.mem_cons_self
  | removeLast split _ _ =>
    rw [split, List.map_append]
    exact List.mem_append_right _ List.mem_cons_self

/-! ## Targets -/

/-- Targets stay listed when an identity is replaced in all operands, if what takes its place is listed
and the others still are. -/
lemma targetsListed_of_renamed {old new : InstrId} {rest : List Instruction} (among : rest ⊆ l.items)
    (renamed : l'.items = rest.map (·.retarget old new))
    (kept : ∀ id, l.contains id = true → l'.contains (id.replace old new) = true)
    (listed : l.TargetsListed) : l'.TargetsListed := by
  intro j hj id hid
  rw [renamed] at hj
  obtain ⟨i, hi, rfl⟩ := List.mem_map.1 hj
  rw [Instruction.targets, Instruction.retarget, Operand.targets_retarget] at hid
  obtain ⟨was, hwas, rfl⟩ := List.mem_map.1 hid
  exact kept was (listed i (among hi) was hwas)

/-- A call that names no unlisted target leaves none. -/
lemma Effect.targetsListed (h : Effect l l' c reply) (brings : c.Listed l)
    (listed : l.TargetsListed) : l'.TargetsListed := by
  cases reply with
  | created new =>
    obtain ⟨i, _, grown, targets⟩ := h.perm_of_created
    intro j hj id hid
    refine (contains_of_perm grown).2 (.inr ?_)
    obtain rfl | old := List.mem_cons.1 (grown.mem_iff.1 hj)
    · exact targets brings id hid
    · exact listed j old id hid
  | removed i =>
    cases h with
    | @remove pre post i next split renamed =>
      refine targetsListed_of_renamed ?_ renamed ?_ listed
      · rw [split]
        exact ((List.sublist_cons_self i _).append_left pre).subset
      · intro id was
        rw [contains_iff_mem, split, List.map_append, List.map_cons, List.mem_append,
          List.mem_cons] at was
        rw [contains_of_renamed renamed, List.map_append, List.mem_append]
        by_cases same : id = i.id
        · rw [same, InstrId.replace_self]
          exact .inr List.mem_cons_self
        · rw [InstrId.replace_of_ne same]
          obtain before | it | behind := was
          · exact .inl before
          · exact absurd it same
          · exact .inr behind
    | @removeLast pre i split free left =>
      intro j hj id hid
      rw [left] at hj
      have there : j ∈ l.items := by
        rw [split]
        exact List.mem_append_left _ hj
      have was := contains_iff_mem.1 (listed j there id hid)
      rw [split, List.map_append, List.mem_append, List.map_singleton, List.mem_singleton] at was
      rw [contains_iff_mem, left]
      obtain before | rfl := was
      · exact before
      · exact absurd (List.contains_iff_mem.2 hid) (List.any_eq_false.1 free j there)
  | retargeted count =>
    cases h with
    | @retarget old new renamed =>
      refine targetsListed_of_renamed (List.Subset.refl _) renamed ?_ listed
      intro id was
      rw [contains_of_renamed renamed, ← contains_iff_mem]
      by_cases same : id = old
      · rw [same, InstrId.replace_self]
        exact brings
      · rw [InstrId.replace_of_ne same]
        exact was

/-! ## Whole histories -/

/-- What a history and the list that it leads to have to do with each other. -/
structure Consistent (history : History) (l : InstructionList) : Prop where
  /-- What is listed was handed out. -/
  listed : ∀ id, l.contains id = true → id ∈ history.handedOut
  /-- What was taken out was handed out before. -/
  taken : ∀ id ∈ history.takenOut, id ∈ history.handedOut
  /-- The next identity is greater than all that were handed out. -/
  below : ∀ id ∈ history.handedOut, id.val < l.nextId
  nodup : history.handedOut.Nodup
  /-- Every identity that was used up stands for an instruction that was created. -/
  used : l.nextId ≤ history.creations

lemma Consistent.start : Consistent [] empty where
  listed _ h := by cases h
  taken _ h := by cases h
  below _ h := by cases h
  nodup := .nil
  used := Nat.le_refl _

lemma Consistent.ok (h : Consistent history l) (goes : c.run l = .ok reply l') :
    Consistent ((c, .ok reply) :: history) l' := by
  have effect := effect_of_run goes
  obtain ⟨next, new⟩ := nextId_of_run goes
  have created : History.creations ((c, .ok reply) :: history) = c.creations + history.creations :=
    rfl
  have used := h.used
  cases reply with
  | created id =>
    obtain ⟨rfl, one⟩ := new id rfl
    have fresh : ⟨l.nextId⟩ ∉ history.handedOut := fun old => Nat.lt_irrefl _ (h.below _ old)
    refine ⟨fun id hid => ?_, fun id hid => List.mem_cons_of_mem _ (h.taken id hid), fun id hid => ?_,
      List.nodup_cons.2 ⟨fresh, h.nodup⟩, by omega⟩
    · obtain old | same := effect.contains_or_created hid
      · exact List.mem_cons_of_mem _ (h.listed id old)
      · cases same
        exact List.mem_cons_self
    · obtain rfl | old := List.mem_cons.1 hid
      · show l.nextId < l'.nextId
        omega
      · have below := h.below id old
        omega
  | removed i =>
    refine ⟨fun id hid => ?_, fun id hid => ?_, fun id hid => ?_, h.nodup, by omega⟩
    · obtain old | same := effect.contains_or_created hid
      · exact h.listed id old
      · cases same
    · obtain rfl | old := List.mem_cons.1 hid
      · exact h.listed i.id effect.contains_removed
      · exact h.taken id old
    · exact Nat.lt_of_lt_of_le (h.below id hid) (next ▸ Nat.le_add_right _ _)
  | retargeted count =>
    refine ⟨fun id hid => ?_, h.taken, fun id hid => ?_, h.nodup, by omega⟩
    · obtain old | same := effect.contains_or_created hid
      · exact h.listed id old
      · cases same
    · exact Nat.lt_of_lt_of_le (h.below id hid) (next ▸ Nat.le_add_right _ _)

lemma Consistent.error (h : Consistent history l) (fails : c.run l = .error e l') :
    Consistent ((c, .error e) :: history) l' := by
  obtain ⟨items, grows, few⟩ := of_run_eq_error fails
  have created : History.creations ((c, .error e) :: history) = c.creations + history.creations :=
    rfl
  have used := h.used
  refine ⟨fun id hid => ?_, h.taken, fun id hid => ?_, h.nodup, by omega⟩
  · rw [contains_iff_mem, items, ← contains_iff_mem] at hid
    exact h.listed id hid
  · exact Nat.lt_of_lt_of_le (h.below id hid) grows

lemma Reached.consistent (h : Reached history l) : Consistent history l := by
  induction h with
  | start => exact .start
  | ok _ goes ih => exact ih.ok goes
  | error _ fails ih => exact ih.error fails

/-- Whatever edits led to a list, its identities are distinct, none was handed out twice, and as many fit
as instructions were created. The next call that goes well hands out no identity that was in use before,
does to the instructions what it is meant to do, and leaves no branch without its target unless it names
an unlisted one itself; a call that is refused leaves the instructions as they are. -/
theorem Reached.stays_sound (h : Reached history l) :
    (l.items.map (·.id)).Nodup
      ∧ (∀ id, l.contains id = true ∨ id ∈ history.takenOut → id ∈ history.handedOut)
      ∧ history.handedOut.Nodup
      ∧ (∀ id ∈ history.handedOut, id.val < l.nextId)
      ∧ l.nextId ≤ history.creations
      ∧ (∀ (c : Call) (reply : Reply) (l' : InstructionList), c.run l = .ok reply l' →
        (∀ id, reply = .created id → id ∉ history.handedOut ∧ id ∉ history.takenOut)
          ∧ Effect l l' c reply
          ∧ (c.Listed l → l.TargetsListed → l'.TargetsListed))
      ∧ ∀ (c : Call) (e : Fault) (l' : InstructionList), c.run l = .error e l' → l'.items = l.items := by
  have sound := h.consistent
  refine ⟨l.nodup, fun id hid => hid.elim (sound.listed id) (sound.taken id), sound.nodup,
    sound.below, sound.used, fun c reply l' goes => ?_, fun c e l' fails => (of_run_eq_error fails).1⟩
  have effect := effect_of_run goes
  refine ⟨fun id given => ?_, effect, effect.targetsListed⟩
  obtain ⟨rfl, _⟩ := (nextId_of_run goes).2 id given
  have fresh : ⟨l.nextId⟩ ∉ history.handedOut := fun old => Nat.lt_irrefl _ (sound.below _ old)
  exact ⟨fresh, fun taken => fresh (sound.taken _ taken)⟩

end InstructionList

namespace Example

/-- A branch to itself and a jump table that names the branch twice, ahead of a return. -/
def tangle : InstructionList :=
  ((InstructionList.empty.push .br (.target ⟨0⟩)).push .switch
    (.switch [⟨0⟩, ⟨1⟩, ⟨0⟩])).push .ret .none

/-- The tangle was made, a branch to an unlisted instruction was refused, and the branch to itself was
taken out. -/
def untangling : InstructionList.History :=
  [(.remove ⟨0⟩, .ok (.removed ⟨⟨0⟩, .br, .target ⟨1⟩⟩)),
    (.insertAfter ⟨0⟩ .br (.target ⟨9⟩), .error (.branch (.danglingTarget ⟨3⟩ ⟨9⟩))),
    (.push .ret .none, .ok (.created ⟨2⟩)),
    (.push .switch (.switch [⟨0⟩, ⟨1⟩, ⟨0⟩]), .ok (.created ⟨1⟩)),
    (.push .br (.target ⟨0⟩), .ok (.created ⟨0⟩))]

/-- What is left of the tangle. -/
def untangled : InstructionList :=
  (tangle.skipId.retarget ⟨0⟩ ⟨1⟩).erase ⟨0⟩

lemma reached_untangled : InstructionList.Reached untangling untangled := by
  have made : InstructionList.Reached (untangling.drop 2) tangle :=
    .ok (.ok (.ok .start rfl) rfl) rfl
  have refused : InstructionList.Reached (untangling.drop 1) tangle.skipId := .error made rfl
  exact .ok refused rfl

/-- All that the jump table names is listed after the removal, and the next instruction gets an identity
that was never used. -/
theorem untangled_stays_sound :
    InstructionList.Reached untangling untangled
      ∧ untangled.items = [⟨⟨1⟩, .switch, .switch [⟨1⟩, ⟨1⟩, ⟨1⟩]⟩, ⟨⟨2⟩, .ret, .none⟩]
      ∧ (untangled.items.map (·.id)).Nodup
      ∧ untangling.handedOut = [⟨2⟩, ⟨1⟩, ⟨0⟩]
      ∧ untangling.takenOut = [⟨0⟩]
      ∧ ∃ l', (InstructionList.Call.insertBefore ⟨1⟩ .br (.target ⟨2⟩)).run untangled
          = .ok (.created ⟨4⟩) l'
        ∧ ⟨4⟩ ∉ untangling.handedOut
        ∧ l'.TargetsListed := by
  obtain ⟨distinct, _, _, _, _, goes, _⟩ := InstructionList.Reached.stays_sound reached_untangled
  have listed : untangled.TargetsListed := by
    unfold InstructionList.TargetsListed
    decide
  obtain ⟨new, _, kept⟩ := goes (.insertBefore ⟨1⟩ .br (.target ⟨2⟩)) (.created ⟨4⟩) _ rfl
  exact ⟨reached_untangled, rfl, distinct, rfl, rfl, _, rfl, (new ⟨4⟩ rfl).1, kept trivial listed⟩

end Example

end HookWeave

import HookWeave.Proofs.Code.Histories

/-!
# Edits that are refused

A call that edits a list is refused because it refers to an instruction that is not listed, because it
inserts a branch to one that is not listed, or because it takes out the last instruction while a branch
goes there (`InstructionList.Refusal`). It then leaves the list as it was (`refused_leaves_list`), so the
calls that were refused can be left out of a history (`Reached.without_refused`). The exception are
insertions of branches to unlisted instructions: the identity that the new instruction was to get is used
up.
-/

namespace HookWeave
namespace InstructionList

/-- The listed instruction that a call refers to. -/
def Call.anchor? : Call → Option InstrId
  | .insertBefore anchor .. | .insertAfter anchor .. | .remove anchor => some anchor
  | .push .. | .retarget .. => none

/-- The operand of the instruction that a call inserts next to another. -/
def Call.inserts? : Call → Option Operand
  | .insertBefore _ _ operand | .insertAfter _ _ operand => some operand
  | .push .. | .remove _ | .retarget .. => none

/-- A call is refused with a fault, and leaves a list. -/
inductive Refusal (l : InstructionList) (c : Call) : Fault → InstructionList → Prop
  | unlisted {anchor : InstrId} :
    c.anchor? = some anchor →
    l.contains anchor = false →
    Refusal l c (.branch (.unlisted anchor)) l
  | stray {anchor target : InstrId} {operand : Operand} :
    c.anchor? = some anchor →
    l.contains anchor = true →
    c.inserts? = some operand →
    operand.targets.find? (!l.contains ·) = some target →
    Refusal l c (.branch (.danglingTarget ⟨l.nextId⟩ target)) l.skipId
  | targetedLast {id : InstrId} :
    c = .remove id →
    l.contains id = true →
    l.successor? id = none →
    l.isTargeted id = true →
    Refusal l c (.branch (.targetWithoutSuccessor id)) l

/-- The call inserts an instruction next to a listed one, and a target of the new one is not listed. -/
def Call.Strays (l : InstructionList) (c : Call) : Prop :=
  ∃ anchor operand, c.anchor? = some anchor ∧ l.contains anchor = true ∧ c.inserts? = some operand
    ∧ ∃ target ∈ operand.targets, l.contains target = false

variable {l l' : InstructionList} {c : Call} {e : Fault} {id : InstrId} {op : OpCode} {operand : Operand}
  {k : Nat} {history : History}

/-! ## What is refused -/

/-- An insertion is refused at the first target that is not listed, and takes the next identity. -/
lemma insert_eq_error : insert k op operand l = .error e l'
    ↔ ∃ target, operand.targets.find? (!l.contains ·) = some target
      ∧ e = .branch (.danglingTarget ⟨l.nextId⟩ target) ∧ l' = l.skipId := by
  rw [insert, edit_get_bind, checkTargets]
  cases operand.targets.find? (!l.contains ·) with
  | some target =>
    constructor
    · intro h
      cases h
      exact ⟨target, rfl, rfl, rfl⟩
    · rintro ⟨_, same, rfl, rfl⟩
      cases same
      rfl
  | none =>
    constructor
    · intro h
      cases h
    · rintro ⟨_, same, _⟩
      cases same

/-- What refers to an instruction goes on from its position if it is listed, and else is refused. -/
lemma anchor_bind_eq {α : Type} (f : Nat → Edit α) (id : InstrId) (l : InstructionList) :
    (l.contains id = false ∧ (anchor id >>= f) l = .error (.branch (.unlisted id)) l)
      ∨ (l.contains id = true ∧ ∃ k, (anchor id >>= f) l = f k l) := by
  cases position : l.position? id with
  | none =>
    have missing : anchor id l = .error (.branch (.unlisted id)) l := by
      rw [anchor, edit_get_bind, position]
      rfl
    refine .inl ⟨Bool.eq_false_iff.2 fun listed => ?_, bind_of_error missing⟩
    obtain ⟨k, found⟩ := contains_iff_position?.1 listed
    cases position.symm.trans found
  | some k =>
    refine .inr ⟨contains_iff_position?.2 ⟨k, position⟩, k, ?_⟩
    exact bind_of_ok (anchor_eq_ok.2 ⟨position, rfl⟩)

/-- An insertion next to another instruction is refused because the other is not listed, or because a
target of the new one is not. -/
lemma insertion_eq_error (place : Nat → Nat) {at' : InstrId} :
    ((anchor at' >>= fun k => insert (place k) op operand) >>= fun new => pure (.created new) :
      Edit Reply) l = .error e l'
      ↔ (l.contains at' = false ∧ e = .branch (.unlisted at') ∧ l' = l)
        ∨ l.contains at' = true ∧ ∃ target, operand.targets.find? (!l.contains ·) = some target
          ∧ e = .branch (.danglingTarget ⟨l.nextId⟩ target) ∧ l' = l.skipId := by
  rw [edit_bind_pure_eq_error]
  obtain ⟨missing, refused⟩ | ⟨listed, k, goes⟩ :=
    anchor_bind_eq (fun k => insert (place k) op operand) at' l
  · rw [refused, missing]
    constructor
    · intro h
      cases h
      exact .inl ⟨rfl, rfl, rfl⟩
    · rintro (⟨_, rfl, rfl⟩ | ⟨h, _⟩)
      · rfl
      · cases h
  · rw [goes, insert_eq_error, listed]
    constructor
    · exact fun h => .inr ⟨rfl, h⟩
    · rintro (⟨h, _⟩ | ⟨_, h⟩)
      · cases h
      · exact h

/-- A removal is refused because the instruction is not listed, or because none is behind it while a
branch goes there. -/
lemma remove_eq_error : remove id l = .error e l'
    ↔ (l.contains id = false ∧ e = .branch (.unlisted id) ∧ l' = l)
      ∨ l.contains id = true ∧ l.successor? id = none ∧ l.isTargeted id = true
        ∧ e = .branch (.targetWithoutSuccessor id) ∧ l' = l := by
  cases listed : l.contains id with
  | false =>
    obtain ⟨_, refused⟩ | ⟨there, _⟩ := anchor_bind_eq _ id l
    · constructor
      · intro h
        cases refused.symm.trans h
        exact .inl ⟨rfl, rfl, rfl⟩
      · rintro (⟨_, rfl, rfl⟩ | ⟨there, _⟩)
        · exact refused
        · cases there
    · cases listed.symm.trans there
  | true =>
    obtain ⟨i, mem, rfl⟩ := List.mem_map.1 (contains_iff_mem.1 listed)
    obtain ⟨pre, post, split⟩ := List.append_of_mem mem
    have behind : l.successor? i.id = post.head?.map (·.id) := by
      rw [successor?_getElem (getElem?_split split), getElem?_behind_split split]
    cases post with
    | nil =>
      rw [remove_of_last split]
      split_ifs with targeted
      · constructor
        · intro h
          cases h
          exact .inr ⟨rfl, behind, targeted, rfl, rfl⟩
        · rintro (⟨missing, _⟩ | ⟨_, _, _, rfl, rfl⟩)
          · cases missing
          · rfl
      · constructor
        · intro h
          cases h
        · rintro (⟨missing, _⟩ | ⟨_, _, there, _⟩)
          · cases missing
          · exact absurd there targeted
    | cons next post =>
      obtain ⟨_, _, removed⟩ := remove_of_successor? behind
      rw [removed]
      constructor
      · intro h
        cases h
      · rintro (⟨missing, _⟩ | ⟨_, last, _⟩)
        · cases missing
        · cases behind.symm.trans last

/-- Only calls that refer to an instruction are refused. -/
lemma not_refusal (free : c.anchor? = none) : ¬ Refusal l c e l' := by
  intro h
  cases h with
  | unlisted anchored => cases free.symm.trans anchored
  | stray anchored => cases free.symm.trans anchored
  | targetedLast same =>
    subst same
    cases free

/-- The refusals of an insertion. -/
lemma refusal_insertion_iff (anchored : c.anchor? = some id) (inserted : c.inserts? = some operand) :
    Refusal l c e l' ↔ (l.contains id = false ∧ e = .branch (.unlisted id) ∧ l' = l)
      ∨ l.contains id = true ∧ ∃ target, operand.targets.find? (!l.contains ·) = some target
        ∧ e = .branch (.danglingTarget ⟨l.nextId⟩ target) ∧ l' = l.skipId := by
  constructor
  · intro h
    cases h with
    | unlisted same missing =>
      cases anchored.symm.trans same
      exact .inl ⟨missing, rfl, rfl⟩
    | stray same listed same' found =>
      cases anchored.symm.trans same
      cases inserted.symm.trans same'
      exact .inr ⟨listed, _, found, rfl, rfl⟩
    | targetedLast same =>
      subst same
      cases inserted
  · rintro (⟨missing, rfl, rfl⟩ | ⟨listed, target, found, rfl, rfl⟩)
    · exact .unlisted anchored missing
    · exact .stray anchored listed inserted found

/-- The refusals of a removal. -/
lemma refusal_remove_iff : Refusal l (.remove id) e l'
    ↔ (l.contains id = false ∧ e = .branch (.unlisted id) ∧ l' = l)
      ∨ l.contains id = true ∧ l.successor? id = none ∧ l.isTargeted id = true
        ∧ e = .branch (.targetWithoutSuccessor id) ∧ l' = l := by
  constructor
  · intro h
    cases h with
    | unlisted same missing =>
      cases same
      exact .inl ⟨missing, rfl, rfl⟩
    | stray _ _ inserted => cases inserted
    | targetedLast same listed last targeted =>
      cases same
      exact .inr ⟨listed, last, targeted, rfl, rfl⟩
  · rintro (⟨missing, rfl, rfl⟩ | ⟨listed, last, targeted, rfl, rfl⟩)
    · exact .unlisted rfl missing
    · exact .targetedLast rfl listed last targeted

/-- A call fails with what it is refused for, and leaves the list that the refusal names. -/
theorem run_eq_error_iff : c.run l = .error e l' ↔ Refusal l c e l' := by
  cases c with
  | push op operand => exact iff_of_false (fun h => by cases h) (not_refusal rfl)
  | insertBefore before op operand =>
    exact (insertion_eq_error id).trans (refusal_insertion_iff rfl rfl).symm
  | insertAfter after op operand =>
    exact (insertion_eq_error (· + 1)).trans (refusal_insertion_iff rfl rfl).symm
  | remove at' =>
    refine Iff.trans ?_ (remove_eq_error.trans refusal_remove_iff.symm)
    exact edit_bind_pure_eq_error
  | retarget old new => exact iff_of_false (fun h => by cases h) (not_refusal rfl)

/-! ## What a refusal leaves -/

lemma skipId_ne (l : InstructionList) : l.skipId ≠ l := fun same =>
  Nat.succ_ne_self l.nextId (congrArg nextId same)

/-- A refusal keeps the list, unless the call strays. -/
lemma Refusal.eq_or_strays (h : Refusal l c e l') : l' = l ∨ l' = l.skipId ∧ c.Strays l := by
  cases h with
  | unlisted => exact .inl rfl
  | targetedLast => exact .inl rfl
  | stray anchored listed inserted found =>
    have missing := List.find?_some found
    rw [Bool.not_eq_true'] at missing
    exact .inr ⟨rfl, _, _, anchored, listed, inserted, _, List.mem_of_find?_eq_some found, missing⟩

/-- A call that strays is refused, and takes an identity with it. -/
lemma Call.Strays.refused (h : c.Strays l) : ∃ e, Refusal l c e l.skipId := by
  obtain ⟨at', operand, anchored, listed, inserted, target, named, missing⟩ := h
  have found : (operand.targets.find? (!l.contains ·)).isSome = true :=
    List.find?_isSome.2 ⟨target, named, by rw [missing]; rfl⟩
  obtain ⟨first, found⟩ := Option.isSome_iff_exists.1 found
  exact ⟨_, .stray anchored listed inserted found⟩

/-- The failures of a call leave the list equal to what it was unless the call is to insert a branch to
an instruction that is not listed. Such a call fails too; it keeps the instructions, but takes the next
identity. -/
theorem refused_leaves_list (c : Call) (l : InstructionList) :
    ((∀ e l', c.run l = .error e l' → l' = l) ↔ ¬ c.Strays l)
      ∧ ∀ e l', c.run l = .error e l' → l'.items = l.items ∧ (l' = l ∨ l' = l.skipId) := by
  refine ⟨⟨fun kept strays => ?_, fun faithful e l' h => ?_⟩, fun e l' h => ?_⟩
  · obtain ⟨e, refused⟩ := strays.refused
    exact skipId_ne l (kept e _ (run_eq_error_iff.2 refused))
  · obtain kept | ⟨_, strays⟩ := (run_eq_error_iff.1 h).eq_or_strays
    · exact kept
    · exact absurd strays faithful
  · exact ⟨(of_run_eq_error h).1, (run_eq_error_iff.1 h).eq_or_strays.imp_right And.left⟩

/-! ## Whole histories -/

/-- The calls that were refused can be left out of a history in which none was refused for a target. -/
theorem Reached.without_refused (h : Reached history l)
    (faithful : ∀ call ∈ history, ∀ source target,
      call.2 ≠ .error (.branch (.danglingTarget source target))) :
    Reached (history.filter (·.2.isOk)) l := by
  induction h with
  | start => exact .start
  | ok _ run ih =>
    rw [List.filter_cons_of_pos rfl]
    exact .ok (ih fun call mem => faithful call (List.mem_cons_of_mem _ mem)) run
  | error _ run ih =>
    rw [List.filter_cons_of_neg Bool.false_ne_true]
    have rest := ih fun call mem => faithful call (List.mem_cons_of_mem _ mem)
    cases run_eq_error_iff.1 run with
    | unlisted => exact rest
    | targetedLast => exact rest
    | stray => exact absurd rfl (faithful _ List.mem_cons_self _ _)

namespace Example

/-- A list that consists of a return. -/
def returning : InstructionList :=
  .ofCode [(.ret, .none)]

/-- A call that is to insert a branch to an instruction that was never there. -/
def astray : Call :=
  .insertBefore ⟨0⟩ .br (.target ⟨42⟩)

/-- The branch that is refused uses up the identity that the next instruction was to get. -/
theorem astray_takes_identity :
    astray.run returning = .error (.branch (.danglingTarget ⟨1⟩ ⟨42⟩)) returning.skipId
      ∧ returning.skipId ≠ returning
      ∧ (Call.push .nop .none).run returning = .ok (.created ⟨1⟩) (returning.push .nop .none)
      ∧ (Call.push .nop .none).run returning.skipId
        = .ok (.created ⟨2⟩) (returning.skipId.push .nop .none) :=
  ⟨rfl, skipId_ne returning, rfl, rfl⟩

end Example

end InstructionList
end HookWeave

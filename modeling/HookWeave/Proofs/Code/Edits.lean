import HookWeave.Proofs.Code.Lists
import HookWeave.Proofs.Outcomes

/-!
# Edits of lists

When an edit of a list goes well, and what it leaves: an insertion (`insert_eq_ok`) and a removal
(`remove_cases`), which differs for an instruction with one behind it (`remove_of_successor?`) and for the
last one (`remove_of_last`). A removal that is refused leaves the list as it was; an insertion takes an
identity in any case (`of_insert_eq_error`).
-/

namespace HookWeave

variable {β σ : Type}

lemma edit_set_bind (g : PUnit → EStateM Fault σ β) (s s' : σ) :
    (set s' >>= g : EStateM Fault σ β) s = g .unit s' :=
  rfl

/-- The identity, or `new` where it is `old`. -/
def InstrId.replace (id old new : InstrId) : InstrId :=
  if id = old then new else id

lemma InstrId.replace_self (old new : InstrId) : old.replace old new = new :=
  if_pos rfl

lemma InstrId.replace_of_ne {old new id : InstrId} (h : id ≠ old) : id.replace old new = id :=
  if_neg h

lemma Operand.targets_retarget (old new : InstrId) (operand : Operand) :
    (operand.retarget old new).targets = operand.targets.map (·.replace old new) := by
  cases operand <;> rfl

namespace InstructionList

variable {l l' : InstructionList} {id : InstrId} {op : OpCode} {operand : Operand}
  {pre post : List Instruction} {i : Instruction} {k : Nat} {e : Fault}

/-! ## Places -/

lemma contains_iff_mem : l.contains id = true ↔ id ∈ l.items.map (·.id) := by
  simp only [contains, List.any_eq_true, decide_eq_true_eq, List.mem_map]

lemma anchor_eq_ok : anchor id l = .ok k l' ↔ l.position? id = some k ∧ l' = l := by
  rw [anchor, edit_get_bind]
  cases l.position? id with
  | some index =>
    constructor
    · intro h
      cases h
      exact ⟨rfl, rfl⟩
    · rintro ⟨same, rfl⟩
      cases same
      rfl
  | none =>
    constructor
    · intro h
      cases h
    · rintro ⟨same, _⟩
      cases same

/-- What comes behind an anchor comes only if the anchor is listed. -/
lemma anchor_bind_cases {α : Type} (f : Nat → Edit α) (id : InstrId) (l : InstructionList) :
    (anchor id >>= f) l = .error (.branch (.unlisted id)) l
      ∨ ∃ pre i post, l.items = pre ++ i :: post ∧ i.id = id ∧ (anchor id >>= f) l = f pre.length l := by
  cases position : l.position? id with
  | none =>
    have missing : anchor id l = .error (.branch (.unlisted id)) l := by
      rw [anchor, edit_get_bind, position]
      rfl
    exact .inl (bind_of_error missing)
  | some k =>
    obtain ⟨i, at', rfl⟩ := position?_eq_some.1 position
    obtain ⟨bound, rfl⟩ := List.getElem?_eq_some_iff.1 at'
    refine .inr ⟨l.items.take k, l.items[k], l.items.drop (k + 1), ?_, rfl, ?_⟩
    · rw [List.getElem_cons_drop, List.take_append_drop]
    · rw [bind_of_ok (anchor_eq_ok.2 ⟨position, rfl⟩), List.length_take,
        Nat.min_eq_left (Nat.le_of_lt bound)]

lemma last?_split (split : l.items = pre ++ [i]) : l.last? = some i := by
  rw [last?, split, List.getLast?_concat]

lemma getElem?_split (split : l.items = pre ++ i :: post) : l.items[pre.length]? = some i := by
  rw [split, List.getElem?_append_right (Nat.le_refl _), Nat.sub_self]
  rfl

lemma getElem?_behind_split (split : l.items = pre ++ i :: post) :
    l.items[pre.length + 1]? = post.head? := by
  rw [split, List.getElem?_append_right (Nat.le_add_right _ _), Nat.add_sub_cancel_left,
    List.getElem?_cons_succ, List.head?_eq_getElem?]

/-! ## Insertion -/

/-- An insertion that goes well takes the next identity, for an operand all of whose targets are
listed. -/
lemma insert_eq_ok {new : InstrId} : insert k op operand l = .ok new l'
    ↔ new = ⟨l.nextId⟩ ∧ l' = l.insertAt k op operand
      ∧ ∀ id ∈ operand.targets, l.contains id = true := by
  rw [insert, edit_get_bind, checkTargets]
  cases found : operand.targets.find? (!l.contains ·) with
  | some target =>
    have missing := List.find?_some found
    constructor
    · intro h
      cases h
    · rintro ⟨_, _, listed⟩
      rw [listed target (List.mem_of_find?_eq_some found)] at missing
      cases missing
  | none =>
    have listed : ∀ id ∈ operand.targets, l.contains id = true := by
      intro id hid
      have present := List.find?_eq_none.1 found id hid
      rwa [Bool.not_eq_true, Bool.not_eq_false'] at present
    constructor
    · intro h
      cases h
      exact ⟨rfl, rfl, listed⟩
    · rintro ⟨rfl, rfl, _⟩
      rfl

/-- An insertion that is refused takes the next identity all the same. -/
lemma of_insert_eq_error (h : insert k op operand l = .error e l') : l' = l.skipId := by
  rw [insert, edit_get_bind] at h
  cases checked : l.checkTargets ⟨l.nextId⟩ operand with
  | ok =>
    rw [checked] at h
    cases h
  | error =>
    rw [checked] at h
    cases h
    rfl

lemma items_insertAt (split : l.items = pre ++ post) :
    (l.insertAt pre.length op operand).items = pre ++ ⟨⟨l.nextId⟩, op, operand⟩ :: post := by
  show l.items.take pre.length ++ _ :: l.items.drop pre.length = _
  rw [split, List.take_left, List.drop_left]

/-- An insertion next to another instruction is refused, if need be with the loss of an identity, or puts
an instruction there. -/
lemma insertion_cases (place : Nat → Nat) (id : InstrId) (op : OpCode) (operand : Operand)
    (l : InstructionList) {r : EStateM.Result Fault InstructionList InstrId}
    (h : (anchor id >>= fun k => insert (place k) op operand) l = r) :
    (∃ e, r = .error e l ∨ r = .error e l.skipId)
      ∨ ∃ pre i post, l.items = pre ++ i :: post ∧ i.id = id
        ∧ (∀ id ∈ operand.targets, l.contains id = true)
        ∧ r = .ok ⟨l.nextId⟩ (l.insertAt (place pre.length) op operand) := by
  obtain unlisted | ⟨pre, i, post, split, same, goes⟩ :=
    anchor_bind_cases (fun k => insert (place k) op operand) id l
  · exact .inl ⟨_, .inl (h.symm.trans unlisted)⟩
  · rw [goes] at h
    cases r with
    | ok new l' =>
      obtain ⟨rfl, rfl, listed⟩ := insert_eq_ok.1 h
      exact .inr ⟨pre, i, post, split, same, listed, rfl⟩
    | error e l' =>
      cases of_insert_eq_error h
      exact .inl ⟨e, .inr rfl⟩

/-- What was listed is listed when an instruction was inserted. -/
lemma contains_insertAt (listed : l.contains id = true) :
    (l.insertAt k op operand).contains id = true := by
  obtain ⟨i, mem, same⟩ := List.any_eq_true.1 listed
  refine List.any_eq_true.2 ⟨i, ?_, same⟩
  rw [← List.take_append_drop k l.items] at mem
  cases List.mem_append.1 mem with
  | inl mem => exact List.mem_append_left _ mem
  | inr mem => exact List.mem_append_right _ (List.mem_cons_of_mem _ mem)

/-! ## Removal -/

lemma items_retarget (l : InstructionList) (old new : InstrId) :
    (l.retarget old new).items = l.items.map (·.retarget old new) :=
  rfl

/-- No other instruction is taken out with the one of an identity. -/
lemma items_erase (split : l.items = pre ++ i :: post) (same : i.id = id) :
    (l.erase id).items = pre ++ post := by
  subst same
  have nodup := l.nodup
  rw [split, List.map_append, List.map_cons, List.nodup_middle, List.nodup_cons] at nodup
  have others : ∀ j ∈ pre ++ post, j.id ≠ i.id := by
    intro j hj same
    apply nodup.1
    rw [← List.map_append, ← same]
    exact List.mem_map_of_mem hj
  obtain ⟨before, behind⟩ := List.forall_mem_append.1 others
  show l.items.filter (fun j => decide (j.id ≠ i.id)) = _
  rw [split, List.filter_append, List.filter_cons_of_neg (by simp),
    List.filter_eq_self.2 fun j hj => decide_eq_true (before j hj),
    List.filter_eq_self.2 fun j hj => decide_eq_true (behind j hj)]

/-- An instruction with one behind it can be removed. The branches to it go to the other, its own
among them. -/
lemma remove_of_successor? {next : InstrId} (behind : l.successor? id = some next) :
    ∃ i, l.get? id = some i
      ∧ remove id l = .ok (i.retarget id next) ((l.retarget id next).erase id) := by
  obtain ⟨k, position, found⟩ := Option.bind_eq_some_iff.1 behind
  obtain ⟨j, next', same⟩ := Option.bind_eq_some_iff.1 found
  cases same
  obtain ⟨i, at', rfl⟩ := position?_eq_some.1 position
  have moved : (l.retarget i.id j.id).items[k]? = some (i.retarget i.id j.id) := by
    rw [retarget, List.getElem?_map, at']
    rfl
  have there : (l.retarget i.id j.id).get? i.id = some (i.retarget i.id j.id) := get?_getElem moved
  refine ⟨i, get?_getElem at', ?_⟩
  rw [remove, bind_of_ok (anchor_eq_ok.2 ⟨position, rfl⟩)]
  simp only [edit_get_bind, next', edit_set_bind, there]
  rfl

/-- The last instruction can be removed if no branch goes there. -/
lemma remove_of_last (split : l.items = pre ++ [i]) : remove i.id l =
    if l.isTargeted i.id then .error (.branch (.targetWithoutSuccessor i.id)) l
    else .ok i (l.erase i.id) := by
  have at' := getElem?_split split
  have none := getElem?_behind_split split
  rw [remove, bind_of_ok (anchor_eq_ok.2 ⟨position?_getElem at', rfl⟩)]
  simp only [edit_get_bind, none, List.head?_nil]
  split_ifs with targeted
  · rfl
  · simp only [edit_get_bind, get?_getElem at']
    rfl

/-- A removal is refused without a trace, or takes out an instruction with one behind it, or the last
one. -/
lemma remove_cases (id : InstrId) (l : InstructionList) :
    (∃ e, remove id l = .error e l)
      ∨ (∃ pre i next post, l.items = pre ++ i :: next :: post ∧ i.id = id
        ∧ remove id l = .ok (i.retarget id next.id) ((l.retarget id next.id).erase id))
      ∨ ∃ pre i, l.items = pre ++ [i] ∧ i.id = id ∧ l.isTargeted id = false
        ∧ remove id l = .ok i (l.erase id) := by
  obtain unlisted | ⟨pre, i, post, split, rfl, _⟩ := anchor_bind_cases _ id l
  · exact .inl ⟨_, unlisted⟩
  · cases post with
    | nil =>
      have outcome := remove_of_last split
      by_cases targeted : l.isTargeted i.id = true
      · rw [if_pos targeted] at outcome
        exact .inl ⟨_, outcome⟩
      · rw [if_neg targeted] at outcome
        exact .inr (.inr ⟨pre, i, split, rfl, Bool.eq_false_iff.2 targeted, outcome⟩)
    | cons next post =>
      have at' := getElem?_split split
      have behind : l.successor? i.id = some next.id := by
        rw [successor?_getElem at', getElem?_behind_split split]
        rfl
      obtain ⟨j, found, removed⟩ := remove_of_successor? behind
      cases (get?_getElem at').symm.trans found
      exact .inr (.inl ⟨pre, i, next, post, split, rfl, removed⟩)

end InstructionList
end HookWeave

import HookWeave.Proofs.Code.Histories
import HookWeave.Proofs.Semantics.Regions
import HookWeave.Proofs.Weaving.Edits

/-!
# Removal from bodies

An instruction is taken out of a body whose branches and clauses name instructions of the body only
(`MethodBody.Anchored`). Positions behind it close up by one (`closedUp`), and the boundaries that named it
name the instruction behind it, or the end of the body if there is none. So every boundary goes where its
position goes (`Without.position?_moved`, `Without.boundary?_moved`), no region wins or loses an
instruction, and what is refused leaves the body as it was (`MethodBody.removeInstruction_cases`).
-/

namespace HookWeave

/-- Branches and clauses name instructions of the body only. -/
structure MethodBody.Anchored (b : MethodBody) : Prop where
  targets : b.instructions.TargetsListed
  clauses : ∀ c ∈ b.clauses, c.Listed b.instructions

/-- The instruction is the last one, and a clause starts there or a branch goes there. -/
def MethodBody.Needs (b : MethodBody) (id : InstrId) : Prop :=
  b.instructions.last?.map (·.id) = some id
    ∧ (b.clauses.any (·.startsAt id) = true ∨ b.instructions.isTargeted id = true)

variable {b b' : MethodBody} {id j : InstrId} {k here gap : Nat}

/-! ## Positions that close up -/

/-- Where a position goes when the one of `gap` is taken out. -/
def closedUp (gap k : Nat) : Nat :=
  if k ≤ gap then k else k - 1

lemma closedUp_of_le (h : k ≤ gap) : closedUp gap k = k :=
  if_pos h

lemma closedUp_of_gt (k : Nat) : closedUp gap (gap + 1 + k) = gap + k := by
  rw [closedUp, if_neg (by omega)]
  omega

/-- Positions lie to each other as they did. -/
lemma closedUp_le_iff (other : here ≠ gap) : closedUp gap k ≤ closedUp gap here ↔ k ≤ here := by
  unfold closedUp
  split_ifs <;> omega

namespace InstructionList

variable {l l' : InstructionList} {pre post : List InstrId}

lemma position?_iff_getElem? : l.position? id = some k ↔ (l.items.map (·.id))[k]? = some id := by
  rw [position?_eq_some, List.getElem?_map, Option.map_eq_some_iff]

/-- The second list has the instructions of the first one in their order, without the one of `id`. -/
structure Without (l l' : InstructionList) (pre : List InstrId) (id : InstrId) (post : List InstrId) :
    Prop where
  was : l.items.map (·.id) = pre ++ id :: post
  now : l'.items.map (·.id) = pre ++ post

namespace Without

lemma size (h : l.Without l' pre id post) : l.size = pre.length + 1 + post.length := by
  rw [InstructionList.size, ← List.length_map (·.id), h.was, List.length_append, List.length_cons]
  omega

lemma size' (h : l.Without l' pre id post) : l'.size = pre.length + post.length := by
  rw [InstructionList.size, ← List.length_map (·.id), h.now, List.length_append]

lemma position?_self (h : l.Without l' pre id post) : l.position? id = some pre.length := by
  rw [position?_iff_getElem?, h.was, List.getElem?_append_right (Nat.le_refl _), Nat.sub_self]
  rfl

lemma successor?_self (h : l.Without l' pre id post) : l.successor? id = post.head? := by
  obtain ⟨i, at', rfl⟩ := position?_eq_some.1 h.position?_self
  rw [successor?_getElem at', ← List.getElem?_map, h.was,
    List.getElem?_append_right (Nat.le_add_right _ 1), Nat.add_sub_cancel_left,
    List.getElem?_cons_succ, List.head?_eq_getElem?]

lemma last?_iff (h : l.Without l' pre id post) : l.last?.map (·.id) = some id ↔ post = [] := by
  have nodup := l.nodup
  rw [h.was, List.nodup_middle, List.nodup_cons] at nodup
  rw [last?, ← List.getLast?_map, h.was, List.getLast?_append_cons]
  cases post with
  | nil => exact iff_of_true rfl rfl
  | cons next post =>
    refine iff_of_false (fun same => nodup.1 (List.mem_append_right _ ?_)) (List.cons_ne_nil _ _)
    rw [List.getLast?_cons_cons] at same
    exact List.mem_of_getLast? same

/-- The instruction behind the one that is taken out takes its position. -/
lemma position?_next (h : l.Without l' pre id post) (next : post.head? = some j) :
    l'.position? j = some pre.length := by
  rw [position?_iff_getElem?, h.now, List.getElem?_append_right (Nat.le_refl _), Nat.sub_self,
    ← List.head?_eq_getElem?]
  exact next

/-- The others go where their positions go. -/
lemma position?_other (h : l.Without l' pre id post) (other : j ≠ id) (was : l.position? j = some k) :
    k ≠ pre.length ∧ l'.position? j = some (closedUp pre.length k) := by
  have apart : k ≠ pre.length := by
    rintro rfl
    have there := (position?_iff_getElem?.1 was).symm.trans (position?_iff_getElem?.1 h.position?_self)
    exact other (Option.some.inj there)
  refine ⟨apart, ?_⟩
  rw [position?_iff_getElem?, h.was] at was
  rw [position?_iff_getElem?, h.now]
  cases Nat.lt_or_gt_of_ne apart with
  | inl before =>
    rw [closedUp_of_le (Nat.le_of_lt before), List.getElem?_append_left before]
    rwa [List.getElem?_append_left before] at was
  | inr behind =>
    obtain ⟨m, rfl⟩ := Nat.exists_eq_add_of_le behind
    rw [closedUp_of_gt, List.getElem?_append_right (Nat.le_add_right _ _), Nat.add_sub_cancel_left]
    rwa [List.getElem?_append_right (by omega), Nat.succ_add, Nat.succ_sub (Nat.le_add_right _ _),
      Nat.add_sub_cancel_left, List.getElem?_cons_succ] at was

lemma contains_iff (h : l.Without l' pre id post) :
    l'.contains j = true ↔ l.contains j = true ∧ j ≠ id := by
  have nodup := l.nodup
  rw [h.was, List.nodup_middle, List.nodup_cons] at nodup
  rw [contains_iff_mem, contains_iff_mem, h.was, h.now, List.mem_append, List.mem_append,
    List.mem_cons]
  constructor
  · intro kept
    refine ⟨kept.imp_right .inr, ?_⟩
    rintro rfl
    exact nodup.1 (List.mem_append.2 kept)
  · rintro ⟨before | same | behind, other⟩
    · exact .inl before
    · exact absurd same other
    · exact .inr behind

/-- A start goes where its position goes, if there is an instruction left that it can go to. -/
lemma position?_moved (h : l.Without l' pre id post) (stays : j = id → post ≠ [])
    (was : l.position? j = some k) :
    l'.position? (if j = id then post.head?.getD j else j) = some (closedUp pre.length k) := by
  split_ifs with same
  · subst same
    obtain ⟨next, others, rfl⟩ := List.exists_cons_of_ne_nil (stays rfl)
    cases h.position?_self.symm.trans was
    rw [closedUp_of_le (Nat.le_refl _)]
    exact h.position?_next rfl
  · exact (h.position?_other same was).2

/-- An end goes where its position goes, which may be the end of the list. -/
lemma boundary?_moved (h : l.Without l' pre id post) {stop : Option InstrId}
    (was : l.boundary? stop = some k) :
    l'.boundary? (if stop = some id then post.head? else stop) = some (closedUp pre.length k) := by
  split_ifs with same
  · subst same
    cases h.position?_self.symm.trans was
    rw [closedUp_of_le (Nat.le_refl _)]
    cases post with
    | nil => exact congrArg some h.size'
    | cons next post => exact h.position?_next rfl
  · cases stop with
    | none =>
      cases was
      rw [h.size, closedUp_of_gt]
      exact congrArg some h.size'
    | some stop => exact (h.position?_other (fun e => same (congrArg some e)) was).2

end Without
end InstructionList

open InstructionList

/-! ## Clauses -/

variable {l l' : InstructionList} {pre post : List InstrId} {c : ExceptionClause} {coverage : Coverage}

/-- An instruction that is left lies with respect to a clause as it did. -/
lemma ExceptionClause.coverage?_without (h : l.Without l' pre id post) (other : here ≠ pre.length)
    (starts : c.startsAt id = true → post ≠ []) (was : c.coverage? l here = some coverage) :
    (c.retarget id post.head?).coverage? l' (closedUp pre.length here) = some coverage := by
  have start : ∀ {j}, (j = id → c.startsAt id = true) →
      l.StartsAlike l' here (closedUp pre.length here) j
        (if j = id then post.head?.getD j else j) := by
    intro j named k position
    exact ⟨_, h.position?_moved (fun same => starts (named same)) position,
      (closedUp_le_iff other).symm⟩
  have stop : ∀ {stop}, l.StopsAlike l' here (closedUp pre.length here) stop
      (if stop = some id then post.head? else stop) := by
    intro stop k boundary
    refine ⟨_, h.boundary?_moved boundary, ?_⟩
    rw [← Nat.not_le, ← Nat.not_le, closedUp_le_iff other]
  refine coverage?_alike (c := c) rfl rfl (start ?_) stop (start ?_) stop was
  · intro same
    rw [startsAt, decide_eq_true same, Bool.true_or]
  · intro same
    rw [startsAt, decide_eq_true same, Bool.or_true]

/-- The boundaries of a clause stay listed. -/
lemma ExceptionClause.Listed.without (h : l.Without l' pre id post) (listed : c.Listed l)
    (starts : c.startsAt id = true → post ≠ []) : (c.retarget id post.head?).Listed l' := by
  -- Any position will do but the one that closes up.
  obtain ⟨coverage, covers⟩ := (listed_iff (k := pre.length + 1)).1 listed
  exact listed_iff.2 ⟨coverage, coverage?_without h (Nat.succ_ne_self _) starts covers⟩

/-! ## Removal -/

/-- A removal that goes well leaves the others in their order. It takes out the last one only if no branch
goes there. -/
lemma InstructionList.Effect.without {removed : Instruction}
    (h : Effect l l' (.remove id) (.removed removed)) :
    ∃ pre post, l.Without l' pre id post ∧ (post = [] → l.isTargeted id = false) := by
  cases h with
  | @remove pre post i next split renamed =>
    refine ⟨pre.map (·.id), (next :: post).map (·.id), ⟨?_, ?_⟩, fun none => by cases none⟩
    · rw [split, List.map_append, List.map_cons]
    · rw [renamed, List.map_map, ← List.map_append]
      rfl
  | @removeLast pre i split free left =>
    refine ⟨pre.map (·.id), [], ⟨?_, ?_⟩, fun _ => free⟩
    · rw [split, List.map_append]
      rfl
    · rw [left, List.append_nil]

/-- A removal is refused if the instruction is not listed, or is the last one and a branch goes there. -/
lemma InstructionList.of_remove_eq_error {e : Fault} (h : remove id l = .error e l') :
    l' = l ∧ (l.contains id = false
      ∨ l.last?.map (·.id) = some id ∧ l.isTargeted id = true) := by
  obtain ⟨_, refused⟩ | ⟨_, _, _, _, _, _, goes⟩ | ⟨_, _, _, _, _, goes⟩ := remove_cases id l
  · cases refused.symm.trans h
    refine ⟨rfl, ?_⟩
    cases listed : l.contains id with
    | false => exact .inl rfl
    | true =>
      obtain ⟨i, mem, same⟩ := List.any_eq_true.1 listed
      cases of_decide_eq_true same
      obtain ⟨pre, post, split⟩ := List.append_of_mem mem
      cases post with
      | nil =>
        rw [remove_of_last split] at h
        split_ifs at h with targeted
        refine .inr ⟨?_, targeted⟩
        rw [last?_split split]
        rfl
      | cons next post =>
        have behind : l.successor? i.id = some next.id := by
          rw [successor?_getElem (getElem?_split split), getElem?_behind_split split]
          rfl
        obtain ⟨_, _, goes⟩ := remove_of_successor? behind
        cases goes.symm.trans h
  · cases goes.symm.trans h
  · cases goes.symm.trans h

namespace MethodBody

lemma removeInstruction_of_error {e : Fault}
    (refused : InstructionList.remove id b.instructions = .error e b.instructions) :
    ∃ e, removeInstruction id b = .error e b := by
  rw [removeInstruction, edit_get_bind]
  split_ifs
  · exact ⟨_, rfl⟩
  · have edited : editInstructions (InstructionList.remove id) b = .error e b := by
      rw [editInstructions, refused]
    exact ⟨e, bind_of_error edited⟩

lemma removeInstruction_of_start (final : b.instructions.successor? id = none)
    (starts : b.clauses.any (·.startsAt id) = true) :
    ∃ e, removeInstruction id b = .error e b := by
  rw [removeInstruction, edit_get_bind]
  simp only [final, starts, Option.isNone_none, Bool.and_self, if_true]
  exact ⟨_, rfl⟩

/-- A removal is refused without a trace, if the instruction is not listed or needed at the end of the
body. Otherwise it takes out the instruction, and the boundaries at it go to the one behind it. -/
lemma removeInstruction_cases (b : MethodBody) (id : InstrId) :
    ((b.instructions.contains id = false ∨ b.Needs id) ∧ ∃ e, removeInstruction id b = .error e b)
      ∨ ¬ (b.instructions.contains id = false ∨ b.Needs id) ∧ ∃ removed l' pre post,
        removeInstruction id b = .ok removed
          { b with instructions := l', clauses := b.clauses.map (·.retarget id post.head?) }
        ∧ Effect b.instructions l' (.remove id) (.removed removed)
        ∧ b.instructions.Without l' pre id post
        ∧ (post = [] → ∀ c ∈ b.clauses, ¬ c.startsAt id = true) := by
  cases done : InstructionList.remove id b.instructions with
  | error e l' =>
    obtain ⟨rfl, reason⟩ := of_remove_eq_error done
    refine .inl ⟨reason.imp_right fun needed => ?_, removeInstruction_of_error done⟩
    exact ⟨needed.1, .inr needed.2⟩
  | ok removed l' =>
    have effect : Effect b.instructions l' (.remove id) (.removed removed) :=
      effect_of_run (edit_bind_eq_ok.2 ⟨removed, l', done, rfl⟩)
    obtain ⟨pre, post, without, untargeted⟩ := effect.without
    by_cases starts : post = [] ∧ b.clauses.any (·.startsAt id) = true
    · obtain ⟨rfl, starts⟩ := starts
      exact .inl ⟨.inr ⟨without.last?_iff.2 rfl, .inl starts⟩,
        removeInstruction_of_start without.successor?_self starts⟩
    · have free : post = [] → b.clauses.any (·.startsAt id) = false :=
        fun final => Bool.eq_false_iff.2 fun some => starts ⟨final, some⟩
      refine .inr ⟨?_, removed, l', pre, post, ?_, effect, without, fun final => ?_⟩
      · rintro (unlisted | ⟨last, needed⟩)
        · have listed := contains_iff_position?.2 ⟨_, without.position?_self⟩
          rw [unlisted] at listed
          cases listed
        · have final := without.last?_iff.1 last
          rw [free final, untargeted final] at needed
          cases needed with
          | inl needed => cases needed
          | inr needed => cases needed
      · rw [← without.successor?_self]
        refine removeInstruction_of_ok done fun none => free ?_
        rwa [without.successor?_self, List.head?_eq_none_iff] at none
      · exact List.any_eq_false.1 (free final)

/-- A removal that goes well from a body whose branches and clauses name its instructions leaves such a
body, and every other instruction in the regions in which it was. A removal that is refused leaves the
body as it was, and what is refused is to take out an instruction that is not listed or that is needed at
the end of the body. -/
theorem removeInstruction_keeps_regions (anchored : b.Anchored) (id : InstrId) :
    (∀ removed b', removeInstruction id b = .ok removed b' → b'.Anchored ∧
      ∀ j, (b'.instructions.contains j = true ↔ b.instructions.contains j = true ∧ j ≠ id)
        ∧ (b'.instructions.contains j = true →
          ∃ all, b.coverage? j = some all ∧ b'.coverage? j = some all))
    ∧ (∀ e b', removeInstruction id b = .error e b' → b' = b)
    ∧ ((∃ e b', removeInstruction id b = .error e b')
      ↔ b.instructions.contains id = false ∨ b.Needs id) := by
  obtain ⟨reason, e, refused⟩ | ⟨free, removed, l', pre, post, done, effect, without, starts⟩ :=
    removeInstruction_cases b id
  · refine ⟨fun removed b' h => ?_, fun e b' h => ?_, fun _ => reason, fun _ => ⟨e, b, refused⟩⟩
    · cases refused.symm.trans h
    · cases refused.symm.trans h
      rfl
  · have stays : ∀ c ∈ b.clauses, c.startsAt id = true → post ≠ [] :=
      fun c hc starting final => starts final c hc starting
    refine ⟨fun removed b' h => ?_, fun e b' h => ?_, fun h => ?_, fun reason => absurd reason free⟩
    · cases done.symm.trans h
      refine ⟨⟨effect.targetsListed trivial anchored.targets, fun c' hc' => ?_⟩,
        fun j => ⟨without.contains_iff, fun left => ?_⟩⟩
      · obtain ⟨c, hc, rfl⟩ := List.mem_map.1 hc'
        exact (anchored.clauses c hc).without without (stays c hc)
      · obtain ⟨listed, other⟩ := without.contains_iff.1 left
        obtain ⟨all, covered⟩ := exists_coverage? anchored.clauses listed
        obtain ⟨here, position⟩ := contains_iff_position?.1 listed
        obtain ⟨apart, moved⟩ := without.position?_other other position
        exact ⟨all, covered, coverage?_mapped covered position moved rfl fun c hc _ covers =>
          ExceptionClause.coverage?_without without apart (stays c hc) covers⟩
    · cases done.symm.trans h
    · obtain ⟨e, b', h⟩ := h
      cases done.symm.trans h

end MethodBody

namespace Example

/-- Goes on as if nothing had gone wrong. -/
def shieldedBody : MethodBody where
  maxStack := 1
  initLocals := false
  locals := []
  instructions := .ofCode [(.nop, .none), (.leaveShort, .target ⟨4⟩), (.pop, .none),
    (.leaveShort, .target ⟨4⟩), (.ret, .none)]
  clauses := [⟨ExceptionClause.catchFlags, ⟨0⟩, some ⟨2⟩, ⟨2⟩, some ⟨4⟩,
    some ⟨"Core", "System", "Exception"⟩⟩]

lemma shielded_anchored : shieldedBody.Anchored := by
  refine ⟨?_, ?_⟩
  · show ∀ i ∈ shieldedBody.instructions.items, ∀ id ∈ i.targets, _
    decide
  · intro c hc
    cases List.mem_singleton.1 hc
    refine ⟨rfl, fun id same => ?_, rfl, fun id same => ?_⟩
    · cases same
      rfl
    · cases same
      rfl

/-- Where the region ends and the handler starts, an instruction can be taken out, and what comes behind
it is in the handler still. -/
theorem shielded_without_pop :
    shieldedBody.Anchored ∧ ∃ removed b',
      MethodBody.removeInstruction ⟨2⟩ shieldedBody = .ok removed b' ∧ b'.Anchored
        ∧ ∃ all, shieldedBody.coverage? ⟨3⟩ = some all ∧ b'.coverage? ⟨3⟩ = some all := by
  obtain ⟨goes, _, refused⟩ := MethodBody.removeInstruction_keeps_regions shielded_anchored ⟨2⟩
  cases done : MethodBody.removeInstruction ⟨2⟩ shieldedBody with
  | error e b' =>
    obtain missing | needed := refused.1 ⟨e, b', done⟩
    · cases missing
    · exact absurd needed.1 (by decide)
  | ok removed b' =>
    obtain ⟨anchored, others⟩ := goes removed b' done
    obtain ⟨kept, covered⟩ := others ⟨3⟩
    exact ⟨shielded_anchored, removed, b', rfl, anchored, covered (kept.2 (by decide))⟩

end Example
end HookWeave

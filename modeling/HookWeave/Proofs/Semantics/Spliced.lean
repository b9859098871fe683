import HookWeave.Proofs.Code.Splices
import HookWeave.Proofs.Semantics.Regions

/-!
# Regions and code put into bodies

Where code is put in front of a body and its clauses stay, the instructions stay in their regions and the
code lies in none (`MethodBody.coverage?_front`). Where code is put in place of the last instruction and
the clauses follow, the others stay in their regions, and the code lies in those in which the last
instruction lay (`MethodBody.coverage?_tail`).
-/

namespace HookWeave

variable {l l' : InstructionList} {b b' : MethodBody} {code : List (OpCode × Operand)}
  {pre : List Instruction} {last : Instruction} {id old new : InstrId} {k here there : Nat}
  {all : List Coverage}

/-! ## Clauses -/

/-- The identity itself, where it could be replaced by another. -/
def InstrId.stay (id : InstrId) : InstrId :=
  id

lemma ExceptionClause.relabel_stay (c : ExceptionClause) : c.relabel InstrId.stay = c := by
  obtain ⟨flags, tryStart, tryEnd, handlerStart, handlerEnd, catchType⟩ := c
  cases tryEnd <;> cases handlerEnd <;> rfl

lemma ExceptionClause.retarget_eq_relabel (c : ExceptionClause) :
    c.retarget old (some new) = c.relabel (·.replace old new) := by
  have stop (id : Option InstrId) :
      (if id = some old then some new else id) = id.map (·.replace old new) := by
    cases id with
    | none => rfl
    | some id =>
      by_cases same : id = old
      · rw [same, if_pos rfl]
        exact congrArg some (InstrId.replace_self old new).symm
      · rw [if_neg fun h => same (Option.some.inj h)]
        exact congrArg some (InstrId.replace_of_ne same).symm
  rw [retarget, relabel, ← stop, ← stop]
  rfl

/-- How an instruction outside of a clause lies with respect to it. -/
def ExceptionClause.outside (c : ExceptionClause) : Coverage :=
  ⟨c.flags, c.catchType, false, false⟩

namespace InstructionList

/-! ## Boundaries -/

lemma Fronted.boundary? (h : l.Fronted l' code) {stop : Option InstrId}
    (was : l.boundary? stop = some k) : l'.boundary? stop = some (code.length + k) := by
  cases stop with
  | none =>
    cases was
    show some l'.items.length = _
    rw [h.items, List.length_append, length_number]
    rfl
  | some id => exact h.position?_behind.2 was

/-- What lies behind the new code moves back by its length, together with every boundary. -/
lemma Fronted.moves (h : l.Fronted l' code) (here : Nat) :
    l.Moves l' InstrId.stay here (code.length + here) where
  start was := ⟨_, h.position?_behind.2 was, (Nat.add_le_add_iff_left).symm⟩
  stop {id k} was := by
    refine ⟨code.length + k, ?_, (Nat.add_lt_add_iff_left).symm⟩
    rw [show id.map InstrId.stay = id from by cases id <;> rfl]
    exact h.boundary? was

/-- Boundaries stay on the same sides of what comes before the last instruction, and of the new code
as of the last instruction. -/
lemma Ended.moves (h : l.Ended l' pre last code)
    (within : (here < pre.length ∧ there = here)
      ∨ (here = pre.length ∧ pre.length ≤ there ∧ there < pre.length + code.length)) :
    l.Moves l' (·.replace last.id ⟨l.nextId⟩) here there where
  start {id k} was := by
    have before := h.le_of_position? was
    refine ⟨k, h.position? was, ?_⟩
    omega
  stop {id k} was := by
    have size := h.size
    have size' := h.size'
    cases id with
    | none =>
      cases was
      refine ⟨_, rfl, ?_⟩
      have inhabited := List.length_pos_iff.2 h.inhabited
      omega
    | some id =>
      have before := h.le_of_position? was
      refine ⟨k, h.position? was, ?_⟩
      omega

end InstructionList

namespace MethodBody

open InstructionList

/-! ## In front -/

lemma clauses_stay (clauses : b'.clauses = b.clauses) :
    b'.clauses = b.clauses.map (·.relabel InstrId.stay) := by
  rw [clauses, List.map_id'' ExceptionClause.relabel_stay]

section

variable (fronted : b.instructions.Fronted b'.instructions code) (clauses : b'.clauses = b.clauses)
include fronted clauses

lemma coverage?_behind (covered : b.coverage? id = some all) : b'.coverage? id = some all := by
  obtain ⟨k, was, _⟩ := coverage?_eq_some.1 covered
  exact coverage?_moved covered was (fronted.position?_behind.2 was) (fronted.moves k)
    (clauses_stay clauses)

/-- What was handed out lies as it did, or is as unknown. -/
lemma coverage?_behind_eq (named : b.HandedOut) (old : id.val < b.instructions.nextId) :
    b'.coverage? id = b.coverage? id :=
  coverage?_eq (clauses_stay clauses) named fronted.contains_eq (fronted.contains_eq old)
    fun _ => coverage?_behind fronted clauses

/-- No region holds the new code. -/
theorem coverage?_front (listed : ∀ c ∈ b.clauses, c.Listed b.instructions) (bound : k < code.length) :
    b'.coverage? ⟨b.instructions.nextId + k⟩ = some (b.clauses.map (·.outside)) := by
  have at' := fronted.getElem?_front (List.getElem?_eq_getElem bound)
  refine coverage?_eq_some.2 ⟨k, position?_getElem at', ?_⟩
  rw [clauses, List.forall₂_map_right_iff, List.forall₂_same]
  intro c hc
  obtain ⟨_, lies⟩ := (ExceptionClause.listed_iff (k := 0)).1 (listed c hc)
  obtain ⟨ts, te, hs, he, h₁, h₂, h₃, h₄, _⟩ := ExceptionClause.coverage?_eq_some.1 lies
  refine ExceptionClause.coverage?_eq_some.2 ⟨_, _, _, _, fronted.position?_behind.2 h₁,
    fronted.boundary? h₂, fronted.position?_behind.2 h₃, fronted.boundary? h₄, ?_⟩
  have before (start : Nat) : ¬ code.length + start ≤ k := by omega
  simp only [before, false_and, decide_false]
  rfl

/-- It is not known how the new code lies if some boundary is not listed. -/
lemma coverage?_front_eq_none (named : b.HandedOut)
    (unlisted : ¬ ∀ c ∈ b.clauses, c.Listed b.instructions) :
    b'.coverage? ⟨b.instructions.nextId + k⟩ = none := by
  refine Option.eq_none_iff_forall_ne_some.2 fun all covered => unlisted ?_
  exact listed_of_relabel (clauses_stay clauses) named fronted.contains_eq (of_coverage? covered).2

end

/-! ## In place of the last instruction -/

lemma clauses_relabel
    (clauses : b'.clauses = b.clauses.map (·.retarget old (some ⟨b.instructions.nextId⟩))) :
    b'.clauses = b.clauses.map (·.relabel (·.replace old ⟨b.instructions.nextId⟩)) := by
  rw [clauses]
  exact List.map_congr_left fun c _ => c.retarget_eq_relabel

variable (ended : b.instructions.Ended b'.instructions pre last code)
  (clauses : b'.clauses = b.clauses.map (·.retarget last.id (some ⟨b.instructions.nextId⟩)))
include ended clauses

lemma coverage?_replaced (covered : b.coverage? id = some all) :
    b'.coverage? (id.replace last.id ⟨b.instructions.nextId⟩) = some all := by
  obtain ⟨k, was, _⟩ := coverage?_eq_some.1 covered
  refine coverage?_moved covered was (ended.position? was) (ended.moves ?_)
    (clauses_relabel clauses)
  cases Nat.lt_or_eq_of_le (ended.le_of_position? was) with
  | inl before => exact .inl ⟨before, rfl⟩
  | inr same =>
    have inhabited := List.length_pos_iff.2 ended.inhabited
    exact .inr ⟨same, Nat.le_of_eq same.symm, same ▸ Nat.lt_add_of_pos_right inhabited⟩

/-- What was handed out lies as it did, or is as unknown. -/
lemma coverage?_replaced_eq (named : b.HandedOut) (old : id.val < b.instructions.nextId) :
    b'.coverage? (id.replace last.id ⟨b.instructions.nextId⟩) = b.coverage? id :=
  coverage?_eq (clauses_relabel clauses) named ended.contains_eq (ended.contains_eq old)
    fun _ => coverage?_replaced ended clauses

/-- The regions hold the new code as they held the last instruction. -/
theorem coverage?_tail (covered : b.coverage? last.id = some all) (bound : k < code.length) :
    b'.coverage? ⟨b.instructions.nextId + k⟩ = some all := by
  have there := ended.holds k _ (List.getElem?_eq_getElem bound)
  exact coverage?_moved covered (position?_getElem ended.getElem?_last) (position?_getElem there)
    (ended.moves (.inr ⟨rfl, Nat.le_add_right _ _, Nat.add_lt_add_left bound _⟩))
    (clauses_relabel clauses)

/-- The new code lies as the last instruction did, or it is as unknown how. -/
lemma coverage?_tail_eq (named : b.HandedOut) (bound : k < code.length) :
    b'.coverage? ⟨b.instructions.nextId + k⟩ = b.coverage? last.id := by
  have there := ended.holds k _ (List.getElem?_eq_getElem bound)
  have listed : b'.instructions.contains ⟨b.instructions.nextId + k⟩ = true :=
    contains_iff_position?.2 ⟨_, position?_getElem there⟩
  have was : b.instructions.contains last.id = true :=
    contains_iff_position?.2 ⟨_, position?_getElem ended.getElem?_last⟩
  exact coverage?_eq (clauses_relabel clauses) named ended.contains_eq (listed.trans was.symm)
    fun _ covered => coverage?_tail ended clauses covered bound

end MethodBody
end HookWeave

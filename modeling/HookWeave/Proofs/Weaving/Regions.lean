import HookWeave.Proofs.Semantics.Removal
import HookWeave.Proofs.Semantics.Spliced
import HookWeave.Proofs.Weaving.Commuting

/-!
# Regions of woven bodies

A weave moves no exception region. What is left of the target lies with respect to every clause as it did.
A hook ahead of it lies in no region, and one behind it lies where the return lay that it replaces, that
is, only in regions that run to the end of the body.
-/

namespace HookWeave

/-- Of the regions of the clause only such hold an instruction as run to the end of the body. -/
def ExceptionClause.HoldsAtEnd (c : ExceptionClause) (coverage : Coverage) : Prop :=
  (coverage.guarded = true → c.tryEnd = none) ∧ (coverage.handling = true → c.handlerEnd = none)

namespace Weaving

variable {w : Weaving} {verify : Bool} {t : MethodDeclaration} {b b' : MethodBody}
  {pre : List Instruction} {first last : Instruction} {code : Code} {id : InstrId}
  {all : List Coverage}

/-- No region that ends at an instruction holds the last one. -/
lemma holdsAtEnd_last (split : b.instructions.items = pre ++ [last])
    (covered : b.coverage? last.id = some all) :
    List.Forall₂ ExceptionClause.HoldsAtEnd b.clauses all := by
  have at' : b.instructions.items[pre.length]? = some last := InstructionList.getElem?_split split
  obtain ⟨k, position, each⟩ := MethodBody.coverage?_eq_some.1 covered
  cases (InstructionList.position?_getElem at').symm.trans position
  have before : ∀ {id k}, b.instructions.position? id = some k → k ≤ pre.length := by
    intro id k position
    obtain ⟨i, there, _⟩ := InstructionList.position?_eq_some.1 position
    have bound := (List.getElem?_eq_some_iff.1 there).1
    rw [split, List.length_append] at bound
    exact Nat.le_of_lt_succ bound
  have open' : ∀ {stop k}, b.instructions.boundary? stop = some k → pre.length < k → stop = none := by
    intro stop k boundary behind
    cases stop with
    | none => rfl
    | some id => exact absurd (before boundary) (Nat.not_le_of_lt behind)
  refine each.imp fun c coverage covers => ?_
  obtain ⟨_, _, _, _, _, tryEnd, _, handlerEnd, rfl⟩ := ExceptionClause.coverage?_eq_some.1 covers
  exact ⟨fun guarded => open' tryEnd (of_decide_eq_true guarded).2,
    fun handling => open' handlerEnd (of_decide_eq_true handling).2⟩

/-- A weave moves no region. All instructions of the target are left but the return that a hook behind it
replaces, and they lie with respect to every clause as they did. A hook ahead of the target lies in no
region. A hook behind it lies in the regions in which the return lay, which run to the end of the body. -/
theorem weave_keeps_regions (h : w.weave verify = .ok t) (there : w.target.body = some b)
    (listed : ∀ c ∈ b.clauses, c.Listed b.instructions) :
    ∃ b', t.body = some b'
      ∧ b'.clauses.map (fun c => (c.flags, c.catchType))
        = b.clauses.map (fun c => (c.flags, c.catchType))
      ∧ (∀ id, b.instructions.contains id = true →
        (b'.instructions.contains id = true
          ↔ ¬ (w.request.kind = .after ∧ b.instructions.last?.map (·.id) = some id))
        ∧ (b'.instructions.contains id = true →
          ∃ all, b.coverage? id = some all ∧ b'.coverage? id = some all))
      ∧ ∀ id, ¬ b.instructions.contains id = true → b'.instructions.contains id = true →
        (w.request.kind = .before → b'.coverage? id = some (b.clauses.map (·.outside)))
        ∧ (w.request.kind = .after → ∃ last all, b.instructions.last? = some last
          ∧ b.coverage? last.id = some all ∧ b'.coverage? id = some all
          ∧ List.Forall₂ ExceptionClause.HoldsAtEnd b.clauses all) := by
  cases kind : w.request.kind with
  | before =>
    obtain ⟨b', first, code, rfl, ahead⟩ := frontedBy_of_weave h kind there
    refine ⟨b', rfl, by rw [ahead.clauses], fun id old => ⟨?_, fun _ => ?_⟩, fun id new left => ?_⟩
    · exact iff_of_true (ahead.fronted.contains old) fun both => HookKind.noConfusion both.1
    · obtain ⟨all, covered⟩ := MethodBody.exists_coverage? listed old
      exact ⟨all, covered, MethodBody.coverage?_behind ahead.fronted ahead.clauses covered⟩
    · refine ⟨fun _ => ?_, fun other => HookKind.noConfusion other⟩
      obtain ⟨k, bound, rfl⟩ | old := ahead.fronted.contains_cases left
      · exact MethodBody.coverage?_front ahead.fronted ahead.clauses listed bound
      · exact absurd old new
  | after =>
    obtain ⟨b', pre, last, code, rfl, behind⟩ := endedBy_of_weave h kind there
    have final : b.instructions.last? = some last := InstructionList.last?_split behind.ended.was
    refine ⟨b', rfl, ?_, fun id old => ?_, fun id new left =>
      ⟨fun other => HookKind.noConfusion other, fun _ => ?_⟩⟩
    · rw [behind.clauses, List.map_map]
      rfl
    · have left : b'.instructions.contains id = true ↔ id ≠ last.id := behind.ended.contains_iff old
      refine ⟨?_, fun stays => ?_⟩
      · rw [left, final]
        exact not_congr ⟨fun same => ⟨rfl, congrArg some same.symm⟩,
          fun same => (Option.some.inj same.2).symm⟩
      · obtain ⟨all, covered⟩ := MethodBody.exists_coverage? listed old
        have moved := MethodBody.coverage?_replaced behind.ended behind.clauses covered
        rw [InstrId.replace_of_ne (left.1 stays)] at moved
        exact ⟨all, covered, moved⟩
    · obtain ⟨k, bound, rfl⟩ | ⟨old, _⟩ := behind.ended.contains_cases left
      · have was : b.instructions.contains last.id = true :=
          InstructionList.contains_iff_position?.2
            ⟨_, InstructionList.position?_getElem behind.ended.getElem?_last⟩
        obtain ⟨all, covered⟩ := MethodBody.exists_coverage? listed was
        exact ⟨last, all, final, covered,
          MethodBody.coverage?_tail behind.ended behind.clauses covered bound,
          holdsAtEnd_last behind.ended.was covered⟩
      · exact absurd old new

namespace Example

open HookWeave.Example (shieldedBody shielded_anchored)

/-- The body that goes on as if nothing had gone wrong, with the greeting behind. -/
def shieldedGreetedBody : MethodBody where
  maxStack := 1
  initLocals := false
  locals := []
  instructions := {
    items := [⟨⟨0⟩, .nop, .none⟩, ⟨⟨1⟩, .leaveShort, .target ⟨5⟩⟩, ⟨⟨2⟩, .pop, .none⟩,
      ⟨⟨3⟩, .leaveShort, .target ⟨5⟩⟩, ⟨⟨5⟩, .call, .method greet⟩, ⟨⟨6⟩, .ret, .none⟩]
    nextId := 7
    nodup := by decide
    below := by decide }
  clauses := [⟨ExceptionClause.catchFlags, ⟨0⟩, some ⟨2⟩, ⟨2⟩, some ⟨5⟩,
    some ⟨"Core", "System", "Exception"⟩⟩]

/-- The greeting is outside of the handler that ends at the return, as the return was. -/
theorem shielded_greeting :
    (greeting.onto (visitOf shieldedBody)).weave true = .ok (visitOf shieldedGreetedBody)
      ∧ (∀ c ∈ shieldedBody.clauses, c.Listed shieldedBody.instructions)
      ∧ ∃ all, shieldedBody.coverage? ⟨4⟩ = some all ∧ shieldedGreetedBody.coverage? ⟨5⟩ = some all := by
  have woven : (greeting.onto (visitOf shieldedBody)).weave true = .ok (visitOf shieldedGreetedBody) :=
    weave_greeting_onto ⟨⟨4⟩, .ret, .none⟩ rfl (by decide +kernel) rfl (by decide +kernel)
  have listed := shielded_anchored.clauses
  obtain ⟨b', same, _, _, new⟩ := weave_keeps_regions woven rfl listed
  cases same
  obtain ⟨last, all, final, covered, moved, _⟩ := (new ⟨5⟩ (by decide) (by decide)).2 rfl
  cases final
  exact ⟨woven, listed, all, covered, moved⟩

end Example

end Weaving
end HookWeave

import HookWeave.Proofs.Code.Arrivals

/-!
# Greatest depths in straight code

The greatest depth that is seen in a piece of code is the greater of the depth that it starts with and the
greatest one that is seen behind its first instruction (`Peaks.cons`).
-/

namespace HookWeave

variable {returnsValue : Bool} {code rest : List (OpCode × Operand)} {c : OpCode × Operand}
  {effect : StackEffect} {d e p : Nat}

/-- Code that starts with a depth sees no greater one than `p`, which it sees or starts with. -/
def Peaks (returnsValue : Bool) (code : List (OpCode × Operand)) (d p : Nat) : Prop :=
  IsGreatest {e | e = d ∨ Sees returnsValue code d e} p

lemma sees_cons (takes : (Instruction.ofCode ⟨0⟩ c).stackEffect returnsValue = .ok effect) :
    Sees returnsValue (c :: code) d e
      ↔ e = d ∨ e = effect.after d ∨ Sees returnsValue code (effect.after d) e := by
  constructor
  · rintro ⟨k, c', e', at', lifts, seen⟩
    cases k with
    | zero =>
      cases at'
      cases lifts
      refine seen.imp_right fun ⟨effect', takes', same⟩ => .inl ?_
      cases takes.symm.trans takes'
      exact same
    | succ k =>
      obtain ⟨effect', takes', lifts⟩ := lifts
      cases takes.symm.trans takes'
      exact .inr (.inr ⟨k, c', e', at', lifts, seen⟩)
  · rintro (rfl | rfl | ⟨k, c', e', at', lifts, seen⟩)
    · exact ⟨0, c, e, rfl, rfl, .inl rfl⟩
    · exact ⟨0, c, d, rfl, rfl, .inr ⟨effect, takes, rfl⟩⟩
    · exact ⟨k + 1, c', e', at', ⟨effect, takes, lifts⟩, seen⟩

namespace Peaks

lemma nil : Peaks returnsValue [] d d := by
  refine ⟨.inl rfl, ?_⟩
  rintro e (rfl | ⟨_, _, _, none, _⟩)
  · exact Nat.le_refl _
  · cases none

lemma cons {d' q : Nat} (takes : (Instruction.ofCode ⟨0⟩ c).stackEffect returnsValue = .ok effect)
    (leaves : effect.after d = d') (h : Peaks returnsValue code d' p) (greater : max d p = q) :
    Peaks returnsValue (c :: code) d q := by
  subst leaves greater
  have both : {e | e = d ∨ Sees returnsValue (c :: code) d e}
      = {d} ∪ {e | e = effect.after d ∨ Sees returnsValue code (effect.after d) e} := by
    ext e
    show e = d ∨ Sees returnsValue (c :: code) d e ↔ e = d ∨ _
    rw [sees_cons takes, ← or_assoc, or_self]
    exact Iff.rfl
  unfold Peaks
  rw [both]
  exact isGreatest_singleton.union h

lemma start_le (h : Peaks returnsValue code d p) : d ≤ p :=
  h.2 (.inl rfl)

/-- An instruction that pushes a value adds no greater depth to what is seen behind it. -/
lemma push (takes : (Instruction.ofCode ⟨0⟩ c).stackEffect returnsValue = .ok ⟨0, 1⟩)
    (h : Peaks returnsValue code (d + 1) p) : Peaks returnsValue (c :: code) d p :=
  .cons takes rfl h (Nat.max_eq_right (Nat.le_of_succ_le h.start_le))

/-- In code that is not empty the greatest depth is seen. -/
lemma isGreatest (h : Peaks returnsValue code d p) (inhabited : code ≠ []) :
    IsGreatest {e | Sees returnsValue code d e} p := by
  obtain ⟨c, others, rfl⟩ := List.exists_cons_of_ne_nil inhabited
  have start : Sees returnsValue (c :: others) d d := ⟨0, c, d, rfl, rfl, .inl rfl⟩
  refine ⟨h.1.elim (fun same => ?_) id, fun e seen => h.2 (.inr seen)⟩
  rw [same]
  exact start

end Peaks
end HookWeave

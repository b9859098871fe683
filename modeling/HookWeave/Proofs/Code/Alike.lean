import HookWeave.Proofs.Code.Paths
import HookWeave.Proofs.Image.Bodies

/-!
# Code that differs in identities only

Two lists are alike if they hold the same opcodes and operands, where identities in operands are compared
by what they name: instructions at one position, or none (`InstructionList.Alike`). If only what the
instructions do to control and to the depth of the stack is the same, one list acts as the other
(`InstructionList.ActsAs`). This is enough for paths of control to arrive at the same positions, with the
same depths (`ActsAs.arrives`), and for the greatest depths of the stack to be equal (`ActsAs.maxStack_eq`).
-/

namespace HookWeave

/-- The same opcode and the same operand, with targets that correspond by a relation. -/
structure Instruction.AlikeBy (r : InstrId → InstrId → Prop) (i j : Instruction) : Prop where
  op : j.op = i.op
  operand : i.operand.SameBy r j.operand

/-- The instructions do the same to the depth of the stack, and control goes on from them in the same way, to
targets that correspond by a relation. -/
structure Instruction.ActsBy (r : InstrId → InstrId → Prop) (i j : Instruction) : Prop where
  flow : j.flow = i.flow
  stackEffect : ∀ returnsValue, j.stackEffect returnsValue = i.stackEffect returnsValue
  targets : List.Forall₂ r i.targets j.targets

namespace InstructionList

/-- Two identities name instructions at one position of two lists, or no instructions. -/
def NamesAlike (l m : InstructionList) (a b : InstrId) : Prop :=
  l.position? a = m.position? b

/-- Two lists act the same way, instruction by instruction. -/
def ActsAs (l m : InstructionList) : Prop :=
  List.Forall₂ (Instruction.ActsBy (l.NamesAlike m)) l.items m.items

/-- Two lists agree instruction by instruction, with targets that name the same positions. -/
def Alike (l m : InstructionList) : Prop :=
  List.Forall₂ (Instruction.AlikeBy (l.NamesAlike m)) l.items m.items

end InstructionList

/-- Two bodies differ in the identities of their instructions only. -/
structure MethodBody.Alike (b c : MethodBody) : Prop where
  maxStack : c.maxStack = b.maxStack
  initLocals : c.initLocals = b.initLocals
  locals : c.locals = b.locals
  code : b.instructions.Alike c.instructions
  clauses : List.Forall₂ (ExceptionClause.SameBy (b.instructions.NamesAlike c.instructions))
    b.clauses c.clauses

variable {r : InstrId → InstrId → Prop} {v w : Operand} {i j : Instruction}
  {l m : InstructionList} {returnsValue : Bool} {effect : StackEffect} {p q d n n' : Nat}
  {handlers handlers' : List (InstrId × Nat)} {entries entries' : Set (InstrId × Nat)}

/-! ## Instructions -/

lemma Operand.SameBy.targets (h : v.SameBy r w) : List.Forall₂ r v.targets w.targets := by
  cases v with
  | target a =>
    cases w with
    | target b => exact .cons h .nil
    | _ => cases h
  | switch as =>
    cases w with
    | switch bs => exact h
    | _ => cases h
  | _ =>
    cases w with
    | target | switch => cases h
    | _ => exact .nil

/-- A branch in its long form does what it did. -/
lemma OpCode.acts_of_longForm? {op long : OpCode} (h : op.longForm? = some long) :
    long.info.flow = op.info.flow ∧ ∀ id v w, (Instruction.mk id long v).stackEffect returnsValue
      = (Instruction.mk id op w).stackEffect returnsValue := by
  cases op <;> cases h <;> exact ⟨rfl, fun _ _ _ => rfl⟩

namespace Instruction

lemma method?_of_sameBy (h : i.operand.SameBy r j.operand) : j.method? = i.method? := by
  obtain ⟨_, _, v⟩ := i
  obtain ⟨_, _, w⟩ := j
  have same : v.SameBy r w := h
  cases v with
  | method =>
    cases w with
    | method =>
      cases same
      rfl
    | _ => cases same
  | _ =>
    cases w with
    | method => cases same
    | _ => rfl

/-- Instructions that are the same act in the same way, in whatever forms. -/
lemma SameBy.acts (h : i.SameBy r j) : i.ActsBy r j where
  flow := by
    unfold Instruction.flow
    obtain same | long := h.op
    · rw [same]
    · exact (@OpCode.acts_of_longForm? true _ _ long).1
  stackEffect returnsValue := by
    obtain same | long := h.op
    · unfold Instruction.stackEffect
      rw [same, method?_of_sameBy h.operand]
    · exact (OpCode.acts_of_longForm? long).2 ..
  targets := h.operand.targets

lemma AlikeBy.acts (h : i.AlikeBy r j) : i.ActsBy r j :=
  SameBy.acts ⟨.inl h.op, h.operand⟩

namespace ActsBy

lemma flip (h : i.ActsBy r j) : j.ActsBy (fun a b => r b a) i :=
  ⟨h.flow.symm, fun returnsValue => (h.stackEffect returnsValue).symm, List.Forall₂.flip h.targets⟩

lemma carried (h : i.ActsBy r j) : j.carried d = i.carried d := by
  unfold Instruction.carried
  rw [h.flow]

end ActsBy
end Instruction

namespace InstructionList

/-- Control goes on alike from instructions that act alike. -/
lemma Continues.acts (h : i.ActsBy (l.NamesAlike m) j) (goes : l.Continues i p q) :
    m.Continues j p q := by
  cases goes with
  | next on =>
    refine .next ?_
    unfold Instruction.isTerminal at on ⊢
    rwa [h.flow]
  | target branch named position =>
    obtain ⟨k, at'⟩ := List.mem_iff_getElem?.1 named
    obtain ⟨id', there, alike⟩ := forall₂_getElem? h.targets at'
    refine .target ?_ (List.mem_of_getElem? there) ?_
    · unfold Instruction.IsBranch at branch ⊢
      rwa [h.flow]
    · exact alike.symm.trans position

/-! ## Lists -/

lemma Alike.acts (h : l.Alike m) : l.ActsAs m :=
  List.Forall₂.imp (fun _ _ => Instruction.AlikeBy.acts) h

lemma SameCode.acts (h : l.SameCode m) : l.ActsAs m := by
  refine List.Forall₂.imp (fun i j same => Instruction.SameBy.acts ⟨same.op, same.operand.imp ?_⟩) h
  rintro a b ⟨k, there, there'⟩
  exact there.trans there'.symm

namespace ActsAs

lemma flip (h : l.ActsAs m) : m.ActsAs l := by
  refine (List.Forall₂.flip h).imp fun i j acts => ?_
  obtain ⟨flow, effect, targets⟩ := acts.flip
  exact ⟨flow, effect, targets.imp fun _ _ => Eq.symm⟩

lemma getElem? (h : l.ActsAs m) (here : l.items[p]? = some i) :
    ∃ j, m.items[p]? = some j ∧ i.ActsBy (l.NamesAlike m) j :=
  forall₂_getElem? h here

lemma isEmpty (h : l.ActsAs m) : m.isEmpty = l.isEmpty := by
  unfold InstructionList.isEmpty
  rw [Bool.eq_iff_iff, List.isEmpty_iff_length_eq_zero, List.isEmpty_iff_length_eq_zero,
    List.Forall₂.length_eq h]

/-- Every entry of the first list has one of the second, at the same position with the same depth. -/
def Enters (l m : InstructionList) (entries entries' : Set (InstrId × Nat)) : Prop :=
  ∀ e ∈ entries, ∃ e' ∈ entries', l.NamesAlike m e.1 e'.1 ∧ e'.2 = e.2

/-- Where a path arrives in a list, a path arrives in one that acts as it. -/
lemma arrives (h : l.ActsAs m) (enters : Enters l m entries entries')
    (arrived : l.Arrives entries returnsValue p d) : m.Arrives entries' returnsValue p d := by
  induction arrived with
  | first => exact .first
  | entry mem position =>
    obtain ⟨e', mem', alike, depth⟩ := enters _ mem
    rw [← depth]
    exact .entry mem' (alike.symm.trans position)
  | follow _ here takes enough goes ih =>
    obtain ⟨j, there, acts⟩ := h.getElem? here
    rw [← acts.carried]
    exact .follow ih there ((acts.stackEffect _).trans takes) enough (goes.acts acts)

lemma occurs (h : l.ActsAs m) (enters : Enters l m entries entries')
    (occurred : l.Occurs entries returnsValue d) : m.Occurs entries' returnsValue d := by
  cases occurred with
  | before arrived here =>
    obtain ⟨j, there, _⟩ := h.getElem? here
    exact .before (h.arrives enters arrived) there
  | behind arrived here takes =>
    obtain ⟨j, there, acts⟩ := h.getElem? here
    exact .behind (h.arrives enters arrived) there ((acts.stackEffect _).trans takes)

/-- The stack balances in a list that acts as one in which it does, if it is entered where that one is. -/
lemma balance (h : l.ActsAs m) (enters' : Enters m l entries' entries)
    (balance : l.PathsBalance entries returnsValue) : m.PathsBalance entries' returnsValue where
  handlers e' he' := by
    obtain ⟨e, he, alike, _⟩ := enters' e' he'
    obtain ⟨k, there⟩ := contains_iff_position?.1 (balance.handlers e he)
    exact contains_iff_position?.2 ⟨k, alike.trans there⟩
  inside arrived := by
    have bound := balance.inside (h.flip.arrives enters' arrived)
    rwa [InstructionList.size, List.Forall₂.length_eq h] at bound
  targets arrived here branch id' mem := by
    obtain ⟨i, there, acts⟩ := h.flip.getElem? here
    obtain ⟨k, at'⟩ := List.mem_iff_getElem?.1 mem
    obtain ⟨id, named, alike⟩ := forall₂_getElem? acts.targets at'
    have branch : i.IsBranch := by
      unfold Instruction.IsBranch at branch ⊢
      rwa [acts.flow]
    have listed := balance.targets (h.flip.arrives enters' arrived) there branch id
      (List.mem_of_getElem? named)
    obtain ⟨q, position⟩ := contains_iff_position?.1 listed
    exact contains_iff_position?.2 ⟨q, alike.trans position⟩
  methods arrived here call := by
    obtain ⟨i, there, acts⟩ := h.flip.getElem? here
    obtain ⟨effect, takes⟩ : ∃ effect, i.stackEffect returnsValue = .ok effect :=
      Instruction.stackEffect_eq_ok (balance.methods (h.flip.arrives enters' arrived) there)
    exact Instruction.isSome_method? ((acts.stackEffect _).symm.trans takes) call
  enough arrived here takes := by
    obtain ⟨i, there, acts⟩ := h.flip.getElem? here
    exact balance.enough (h.flip.arrives enters' arrived) there ((acts.stackEffect _).trans takes)
  agree arrived arrived' :=
    balance.agree (h.flip.arrives enters' arrived) (h.flip.arrives enters' arrived')

/-- The greatest depths of the stack are equal, if both lists are entered alike. -/
theorem maxStack_eq (h : l.ActsAs m) (inhabited : l.isEmpty = false)
    (enters : Enters l m {e | e ∈ handlers} {e | e ∈ handlers'})
    (enters' : Enters m l {e | e ∈ handlers'} {e | e ∈ handlers})
    (computed : l.maxStack handlers returnsValue = .ok n) :
    m.maxStack handlers' returnsValue = .ok n := by
  have inhabited' : m.isEmpty = false := h.isEmpty.trans inhabited
  obtain ⟨balance, ⟨occurs, greatest⟩, fits⟩ := (maxStack_eq_ok_balance inhabited).1 computed
  exact (maxStack_eq_ok_balance inhabited').2 ⟨h.balance enters' balance,
    ⟨h.occurs enters occurs, fun d hd => greatest (h.flip.occurs enters' hd)⟩, fits⟩

end ActsAs
end InstructionList

variable {b c : MethodBody}

lemma ExceptionClause.SameBy.imp {t : InstrId → InstrId → Prop} {c d : ExceptionClause} (h : c.SameBy r d)
    (weaker : ∀ a b, r a b → t a b) : c.SameBy t d :=
  ⟨h.flags, h.catchType, weaker _ _ h.tryStart, rel_imp h.tryEnd weaker, weaker _ _ h.handlerStart,
    rel_imp h.handlerEnd weaker⟩

lemma ExceptionClause.SameBy.entryDepth {c d : ExceptionClause} (h : c.SameBy r d) :
    d.entryDepth = c.entryDepth := by
  unfold ExceptionClause.entryDepth
  rw [h.flags]

/-- Handlers are entered alike if the clauses are the same. -/
lemma MethodBody.enters_of_clauses
    (h : List.Forall₂ (ExceptionClause.SameBy (b.instructions.NamesAlike c.instructions))
      b.clauses c.clauses) :
    InstructionList.ActsAs.Enters b.instructions c.instructions {e | e ∈ b.handlerEntries}
        {e | e ∈ c.handlerEntries}
      ∧ InstructionList.ActsAs.Enters c.instructions b.instructions {e | e ∈ c.handlerEntries}
        {e | e ∈ b.handlerEntries} := by
  constructor
  · intro e he
    obtain ⟨clause, mem, rfl⟩ := List.mem_map.1 he
    obtain ⟨k, at'⟩ := List.mem_iff_getElem?.1 mem
    obtain ⟨clause', there, same⟩ := forall₂_getElem? h at'
    exact ⟨_, List.mem_map_of_mem (List.mem_of_getElem? there), same.handlerStart, same.entryDepth⟩
  · intro e he
    obtain ⟨clause, mem, rfl⟩ := List.mem_map.1 he
    obtain ⟨k, at'⟩ := List.mem_iff_getElem?.1 mem
    obtain ⟨clause', there, same⟩ := forall₂_getElem? (List.Forall₂.flip h) at'
    exact ⟨_, List.mem_map_of_mem (List.mem_of_getElem? there), same.handlerStart.symm,
      same.entryDepth.symm⟩

end HookWeave

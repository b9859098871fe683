import HookWeave.Proofs.Code.Widening

/-!
# Relaxation in time

A list is encodable if its operands are of the kinds of their opcodes and name listed instructions only, and
if it is less than 2 GiB with all short branches in their long forms (`InstructionList.Encodable`). Where no
branch is out of reach all operands of such a list fit (`Encodable.reaching`), so nothing can go wrong with
it, its tokens granted, but relaxation. Passes leave no branch out of reach after one for each short branch
at most. The list is written if that is within the passes that are made, as it is with fewer short branches
than passes (`EncodedBody.ofList_settles`). Short branches that lead over one another can take more: in a
chain of them each pass widens one (`Example.inReach_widened_chain`), so a hundred are one too many.
-/

namespace HookWeave

variable {l : InstructionList} {S : Finset InstrId} {ps : List Placed} {p : Placed}
  {i : Instruction} {id : InstrId} {k : Nat}

/-- An operand of the kind that names listed instructions only. -/
inductive OperandKind.Admits (l : InstructionList) : OperandKind → Operand → Prop
  | plain {k : OperandKind} {v : Operand} : k.Holds v → Admits l k v
  | near {id : InstrId} : l.contains id = true → Admits l .branch8 (.target id)
  | far {id : InstrId} : l.contains id = true → Admits l .branch32 (.target id)
  | switch {ids : List InstrId} : (∀ id ∈ ids, l.contains id = true) → Admits l .switch (.switch ids)

lemma OperandKind.Admits.listed {k : OperandKind} {v : Operand} (h : Admits l k v) (named : id ∈ v.targets) :
    l.contains id = true := by
  cases h with
  | plain held =>
    rw [held.targets] at named
    cases named
  | near listed | far listed =>
    rw [List.mem_singleton.1 named]
    exact listed
  | switch listed => exact listed id named

namespace InstructionList

/-- The operands are of the kinds of their opcodes and name listed instructions, and with all short branches
in their long forms the code is less than 2 GiB. -/
structure Encodable (l : InstructionList) : Prop where
  admitted : ∀ i ∈ l.items, OperandKind.Admits l i.op.info.kind i.operand
  small : l.offsetIn l.shortBranches l.size < 2 ^ 31

lemma laidOut_inForms (S : Finset InstrId) (ps : List Placed) :
    (l.inForms S).laidOut ps = l.laidOut ps := by
  rw [laidOut, index_inForms, laidOut]

/-- The code is largest with all short branches in their long forms. -/
lemma offsetIn_le_long (sub : S ⊆ l.shortBranches) (k : Nat) :
    l.offsetIn S k ≤ l.offsetIn l.shortBranches k := by
  have grown := offsetIn_mono (l := l) sub (Nat.zero_le k)
  exact Nat.le_of_add_le_add_right grown

namespace Encodable

lemma layable (h : l.Encodable) : l.Layable where
  sized i hi := by
    have admitted := h.admitted i hi
    unfold Instruction.encodedSize
    generalize i.op.info.kind = k at admitted ⊢
    generalize i.operand = v at admitted ⊢
    cases admitted with
    | plain held =>
      obtain ⟨n, size⟩ := held.size?
      rw [size]
      exact ⟨_, rfl⟩
    | near | far | switch => exact ⟨_, rfl⟩
  leads i hi short := by
    have admitted := h.admitted i hi
    rw [of_decide_eq_true short] at admitted
    generalize i.operand = v at admitted ⊢
    cases admitted with
    | plain held => cases held
    | @near id listed =>
      obtain ⟨j, position⟩ := contains_iff_position?.1 listed
      exact ⟨id, j, rfl, position⟩

lemma validateTargets (h : l.Encodable) : l.validateTargets = .ok () :=
  validateTargets_of_listed fun i hi _ named => (h.admitted i hi).listed named

/-- Where no branch is out of reach, all operands fit. -/
lemma reaching (h : l.Encodable) (reach : l.InReach S) (placed : l.PlacedIn S ps) :
    (l.inForms S).Reaching ps := by
  refine ⟨placed.placed, placed.consecutive, fun p hp => ?_⟩
  rw [laidOut_inForms]
  obtain ⟨k, i, hi, form, stop⟩ := placed.of_mem hp
  have listed := List.mem_of_getElem? hi
  have started : ∀ id, l.contains id = true → ∃ o, (l.laidOut ps).startOf id = .ok o := by
    intro id listed
    obtain ⟨j, position⟩ := contains_iff_position?.1 listed
    exact ⟨_, placed.startOf position⟩
  have admitted := h.admitted i listed
  rw [form, Instruction.formIn_operand]
  -- Only a short branch may have another form, so the kind of the operand is the one that it is admitted for.
  by_cases short : i.op.isShortBranch = true
  · obtain ⟨target, j, operand, position⟩ := h.layable.leads i listed short
    rw [operand]
    refine ⟨.target (l.offsetIn S j), .target (placed.startOf position), ?_⟩
    obtain ⟨long, hlong⟩ := OpCode.isShortBranch_iff.1 short
    by_cases mem : i.id ∈ S
    · rw [Instruction.formIn_of_mem mem hlong, (OpCode.kind_of_longForm? hlong).2.1]
      exact .far
    · rw [Instruction.formIn_of_notMem mem, (OpCode.kind_of_longForm? hlong).1, stop]
      have inside := reach i.id ((id_mem_shortBranches listed).2 short) mem
      exact .near ((reaches_iff hi operand position).1 inside)
  · rw [Instruction.formIn_of_long (Instruction.longForm?_of_not_short short)]
    generalize kind : i.op.info.kind = k at admitted ⊢
    generalize i.operand = v at admitted ⊢
    cases admitted with
    | plain held => exact ⟨_, .resolved held.targets, .resolved held⟩
    | near => exact absurd (decide_eq_true kind) short
    | far listed =>
      obtain ⟨o, start⟩ := started _ listed
      exact ⟨.target o, .target start, .far⟩
    | switch listed =>
      obtain ⟨os, starts⟩ := exists_mapM fun id hid => started id (listed id hid)
      exact ⟨.switch os, .switch (mapM_eq_ok.1 starts), .switch⟩

/-- Where the passes leave no branch out of reach, the code is written. -/
lemma exists_ofList {σ : Type} {tokens : TokenAllocator σ} {s s' : σ} {answered : Answers}
    (h : l.Encodable) (granted : tokens.answers l.references s = .ok (answered, s'))
    (reach : l.InReach (l.widened (Layout.maxPasses - 1))) :
    ∃ e, EncodedBody.ofList l tokens s = .ok (e, s') := by
  have sub := l.widened_subset_shortBranches (Layout.maxPasses - 1)
  obtain ⟨ps, placed⟩ := h.layable.exists_placedIn (l.widened (Layout.maxPasses - 1))
  have laid : l.layout = .ok (l.laidOut ps) := by
    rw [h.layable.layout_eq, if_pos reach]
    exact placed.ofInstructions
  have reaching := h.reaching reach placed
  have small : (ps.map (·.size)).sum < 2 ^ 31 := by
    rw [placed.sum_size]
    exact Nat.lt_of_le_of_lt (offsetIn_le_long sub _) h.small
  rw [← l.references_placed laid] at granted
  obtain ⟨bytes, emitted⟩ := reaching.emit small (List.Subset.refl ps) granted
  rw [laidOut_inForms] at emitted
  refine ⟨⟨bytes, ps.map fun p => (p.instruction.id, p.start)⟩, ?_⟩
  refine run_lift_bind_eq_ok.2 ⟨(), h.validateTargets, run_lift_bind_eq_ok.2 ⟨_, laid, ?_⟩⟩
  exact run_bind_eq_ok.2 ⟨bytes, s', emitted, rfl⟩

/-- Where the passes leave a branch out of reach, there is no layout. -/
lemma ofList_of_far {σ : Type} {tokens : TokenAllocator σ} {s : σ} (h : l.Encodable)
    (far : ¬ l.InReach (l.widened (Layout.maxPasses - 1))) :
    EncodedBody.ofList l tokens s = .error (.malformed (.layoutUnstable Layout.maxPasses)) := by
  have laid := h.layable.layout_eq
  rw [if_neg far] at laid
  rw [EncodedBody.ofList, h.validateTargets, laid]
  rfl

end Encodable

/-- No branch is out of reach before the last pass if there is a pass that finds none. -/
lemma exists_inReach_iff : (∃ n < Layout.maxPasses, l.InReach (l.widened n))
    ↔ l.InReach (l.widened (Layout.maxPasses - 1)) := by
  constructor
  · rintro ⟨n, before, reach⟩
    have le : n ≤ Layout.maxPasses - 1 := Nat.le_pred_of_lt before
    rw [widened_of_le reach le]
    exact reach
  · intro reach
    exact ⟨Layout.maxPasses - 1, by decide, reach⟩

end InstructionList

/-- Passes over a list that asks for nothing the format cannot hold leave no branch out of reach, after one
pass for each short branch at most. The list is written, its tokens granted, if there is such a pass among
those that are made, as there is if the short branches are fewer; otherwise relaxation gives up. -/
theorem EncodedBody.ofList_settles {σ : Type} {tokens : TokenAllocator σ} {s s' : σ} {answered : Answers}
    (encodable : l.Encodable) (granted : tokens.answers l.references s = .ok (answered, s')) :
    (∃ n ≤ l.shortBranches.card, l.InReach (l.widened n))
      ∧ ((∃ n < Layout.maxPasses, l.InReach (l.widened n)) → ∃ e, ofList l tokens s = .ok (e, s'))
      ∧ ((¬ ∃ n < Layout.maxPasses, l.InReach (l.widened n)) →
        ofList l tokens s = .error (.malformed (.layoutUnstable Layout.maxPasses)))
      ∧ (l.shortBranches.card < Layout.maxPasses → ∃ e, ofList l tokens s = .ok (e, s')) := by
  have written : (∃ n < Layout.maxPasses, l.InReach (l.widened n)) →
      ∃ e, ofList l tokens s = .ok (e, s') :=
    fun settles => encodable.exists_ofList granted (InstructionList.exists_inReach_iff.1 settles)
  refine ⟨l.exists_inReach, written, fun far => ?_, fun few => ?_⟩
  · exact encodable.ofList_of_far (mt InstructionList.exists_inReach_iff.2 far)
  · obtain ⟨n, le, reach⟩ := l.exists_inReach
    exact written ⟨n, Nat.lt_of_le_of_lt le few, reach⟩

namespace Example

variable {n m j : Nat}

/-! ## Branches that depend on one another -/

/-- Code of `n` short branches, each of which leads over a jump table and the branch behind it. The last of
them leads over a long branch. -/
def chainCode (n k : Nat) : OpCode × Operand :=
  if k < 2 * n then
    if k % 2 = 0 then (.brShort, .target ⟨k + 3⟩) else (.switch, .switch (List.replicate 30 ⟨0⟩))
  else if k = 2 * n then (.br, .target ⟨k + 1⟩)
  else (.ret, .none)

/-- A chain of `n` short branches that reach their targets only if the branches behind them are short. -/
def chain (n : Nat) : InstructionList :=
  .ofCode ((List.range (2 * n + 2)).map (chainCode n))

lemma chain_size (n : Nat) : (chain n).size = 2 * n + 2 := by
  have same := InstructionList.forall₂_number (n := 0) ((List.range (2 * n + 2)).map (chainCode n))
  have length := same.length_eq
  rw [List.length_map, List.length_range] at length
  exact length.symm

lemma chain_getElem? (h : k < 2 * n + 2) :
    (chain n).items[k]? = some ⟨⟨k⟩, (chainCode n k).1, (chainCode n k).2⟩ := by
  show (InstructionList.number 0 _)[k]? = _
  rw [InstructionList.getElem?_number, List.getElem?_map, List.getElem?_range h, Nat.zero_add]
  rfl

lemma of_mem_chain (h : i ∈ (chain n).items) :
    ∃ k < 2 * n + 2, i = ⟨⟨k⟩, (chainCode n k).1, (chainCode n k).2⟩ := by
  obtain ⟨k, hk⟩ := List.mem_iff_getElem?.1 h
  have bound : k < 2 * n + 2 := chain_size n ▸ (List.getElem?_eq_some_iff.1 hk).1
  exact ⟨k, bound, Option.some.inj (hk.symm.trans (chain_getElem? bound))⟩

lemma chain_position? (h : k < 2 * n + 2) : (chain n).position? ⟨k⟩ = some k :=
  InstructionList.position?_getElem (chain_getElem? h)

lemma chain_branch (h : j < n) :
    (chain n).items[2 * j]? = some ⟨⟨2 * j⟩, .brShort, .target ⟨2 * j + 3⟩⟩ := by
  rw [chain_getElem? (by omega), chainCode, if_pos (by omega), if_pos (by omega)]

lemma chain_table (h : j < n) : (chain n).items[2 * j + 1]?
    = some ⟨⟨2 * j + 1⟩, .switch, .switch (List.replicate 30 ⟨0⟩)⟩ := by
  rw [chain_getElem? (by omega), chainCode, if_pos (by omega), if_neg (by omega)]

lemma chain_end (n : Nat) : (chain n).items[2 * n]? = some ⟨⟨2 * n⟩, .br, .target ⟨2 * n + 1⟩⟩ := by
  rw [chain_getElem? (by omega), chainCode, if_neg (by omega), if_pos rfl]

/-- The short branches of a chain. -/
lemma mem_shortBranches_chain : id ∈ (chain n).shortBranches ↔ ∃ j < n, id = ⟨2 * j⟩ := by
  rw [InstructionList.mem_shortBranches]
  constructor
  · rintro ⟨i, hi, short, rfl⟩
    obtain ⟨k, bound, rfl⟩ := of_mem_chain hi
    unfold chainCode at short
    split at short
    · split at short
      · exact ⟨k / 2, by omega, congrArg InstrId.mk (by omega)⟩
      · cases short
    · split at short <;> cases short
  · rintro ⟨j, hj, rfl⟩
    exact ⟨_, List.mem_of_getElem? (chain_branch hj), rfl, rfl⟩

/-- A branch of a chain leads over 125 bytes and the branch behind it. -/
lemma chain_offsetIn (h : j < n) : (chain n).offsetIn S (2 * j + 3)
    = (chain n).offsetIn S (2 * j + 1) + 125
      + if j + 1 < n ∧ (⟨2 * (j + 1)⟩ : InstrId) ∉ S then 2 else 5 := by
  have table := InstructionList.offsetIn_succ (S := S) (chain_table h)
  rw [Instruction.formIn_of_long rfl] at table
  rw [show 2 * j + 3 = 2 * (j + 1) + 1 from rfl]
  by_cases last : j + 1 < n
  · rw [InstructionList.offsetIn_succ (chain_branch last)]
    by_cases mem : (⟨2 * (j + 1)⟩ : InstrId) ∈ S
    · rw [if_neg fun both => both.2 mem, Instruction.formIn_of_mem mem rfl]
      exact congrArg (· + 5) table
    · rw [if_pos ⟨last, mem⟩, Instruction.formIn_of_notMem mem]
      exact congrArg (· + 2) table
  · obtain rfl : n = j + 1 := by omega
    rw [if_neg fun both => last both.1, InstructionList.offsetIn_succ (chain_end (j + 1)),
      Instruction.formIn_of_long rfl]
    exact congrArg (· + 5) table

/-- A branch of a chain reaches its target if the branch behind it is short. -/
lemma chain_reaches (h : j < n) :
    (chain n).Reaches S ⟨2 * j⟩ ↔ j + 1 < n ∧ (⟨2 * (j + 1)⟩ : InstrId) ∉ S := by
  have target : (chain n).position? ⟨2 * j + 3⟩ = some (2 * j + 3) := chain_position? (by omega)
  rw [InstructionList.reaches_iff (chain_branch h) rfl target, chain_offsetIn h, Layout.fitsByte,
    Bool.and_eq_true, decide_eq_true_eq, decide_eq_true_eq]
  split
  · next short =>
    refine iff_of_true ?_ short
    omega
  · next long =>
    refine iff_of_false ?_ long
    omega

/-- A pass over a chain widens the last of the branches that are short. -/
lemma mem_widened_chain (m : Nat) (h : j < n) :
    (⟨2 * j⟩ : InstrId) ∈ (chain n).widened m ↔ n ≤ j + m := by
  induction m generalizing j with
  | zero =>
    refine iff_of_false (Finset.notMem_empty _) (by omega)
  | succ m ih =>
    rw [InstructionList.widened, InstructionList.widenOnce, Finset.mem_union, Finset.mem_filter, ih h,
      chain_reaches h, mem_shortBranches_chain]
    by_cases last : j + 1 < n
    · rw [ih last]
      have short : ∃ j' < n, (⟨2 * j⟩ : InstrId) = ⟨2 * j'⟩ := ⟨j, h, rfl⟩
      simp only [short, last, true_and]
      omega
    · have short : ∃ j' < n, (⟨2 * j⟩ : InstrId) = ⟨2 * j'⟩ := ⟨j, h, rfl⟩
      simp only [short, last, true_and, false_and, not_false_eq_true, or_true, true_iff]
      omega

/-- A chain takes as many passes as it has branches. -/
lemma inReach_widened_chain : (chain n).InReach ((chain n).widened m) ↔ n ≤ m := by
  constructor
  · intro reach
    by_contra before
    -- The branch in front of those that are widened is out of reach.
    have next : n - 1 - m < n := by omega
    have short : (⟨2 * (n - 1 - m)⟩ : InstrId) ∉ (chain n).widened m := by
      rw [mem_widened_chain m next]
      omega
    obtain ⟨last, behind⟩ :=
      (chain_reaches next).1 (reach _ (mem_shortBranches_chain.2 ⟨_, next, rfl⟩) short)
    rw [mem_widened_chain m last] at behind
    omega
  · intro enough id branch short
    obtain ⟨j, hj, rfl⟩ := mem_shortBranches_chain.1 branch
    rw [mem_widened_chain m hj] at short
    omega

/-- A chain asks for no tokens. -/
lemma chain_granted (n : Nat) :
    TokenAllocator.sequential.answers (chain n).references ⟨1, []⟩ = .ok ([], ⟨1, []⟩) := by
  have none : (chain n).references = [] := by
    refine List.flatMap_eq_nil_iff.2 fun i hi => ?_
    obtain ⟨k, _, rfl⟩ := of_mem_chain hi
    unfold chainCode
    split_ifs <;> rfl
  rw [none]
  exact TokenAllocator.answers_nil

/-- No instruction of a chain has more than 125 bytes. -/
lemma chain_offsetIn_le (S : Finset InstrId) (k : Nat) : (chain n).offsetIn S k ≤ 125 * k := by
  induction k with
  | zero => exact Nat.le_refl _
  | succ k ih =>
    cases hk : (chain n).items[k]? with
    | none =>
      rw [InstructionList.offsetIn_succ_of_none hk]
      omega
    | some i =>
      have few : (i.formIn S).byteSize ≤ 125 := by
        obtain ⟨k, _, rfl⟩ := of_mem_chain (List.mem_of_getElem? hk)
        unfold chainCode
        split_ifs
        · by_cases mem : (⟨k⟩ : InstrId) ∈ S
          · rw [Instruction.formIn_of_mem mem rfl]
            exact (by decide : 5 ≤ 125)
          · rw [Instruction.formIn_of_notMem mem]
            exact (by decide : 2 ≤ 125)
        · rw [Instruction.formIn_of_long rfl]
          exact (by decide : 125 ≤ 125)
        · rw [Instruction.formIn_of_long rfl]
          exact (by decide : 5 ≤ 125)
        · rw [Instruction.formIn_of_long rfl]
          exact (by decide : 1 ≤ 125)
      rw [InstructionList.offsetIn_succ hk]
      omega

/-- A chain that is not too long asks for nothing the format cannot hold. -/
lemma chain_encodable (few : n ≤ 1000) : (chain n).Encodable where
  admitted i hi := by
    obtain ⟨k, bound, rfl⟩ := of_mem_chain hi
    have listed : ∀ k < 2 * n + 2, (chain n).contains ⟨k⟩ = true :=
      fun k hk => InstructionList.contains_iff_position?.2 ⟨k, chain_position? hk⟩
    unfold chainCode
    split_ifs
    · exact .near (listed _ (by omega))
    · refine .switch fun id hid => ?_
      rw [List.eq_of_mem_replicate hid]
      exact listed 0 (by omega)
    · exact .far (listed _ (by omega))
    · exact .plain .none
  small := by
    have le := chain_offsetIn_le (n := n) (chain n).shortBranches (chain n).size
    rw [chain_size n] at le ⊢
    omega

/-- A hundred branches that depend on one another are not written, though nothing else is wrong with them. -/
theorem chain_hundred_refused :
    (chain 100).Encodable
      ∧ TokenAllocator.sequential.answers (chain 100).references ⟨1, []⟩ = .ok ([], ⟨1, []⟩)
      ∧ ¬ ∃ e s', EncodedBody.ofList (chain 100) .sequential ⟨1, []⟩ = .ok (e, s') := by
  have encodable : (chain 100).Encodable := chain_encodable (by decide)
  refine ⟨encodable, chain_granted 100, ?_⟩
  have far : ¬ (chain 100).InReach ((chain 100).widened (Layout.maxPasses - 1)) := by
    rw [inReach_widened_chain]
    decide
  rw [encodable.ofList_of_far far]
  rintro ⟨_, _, written⟩
  cases written

/-- Ninety-nine are written, though the passes that this takes are all that are made. -/
theorem chain_written :
    (chain 99).Encodable
      ∧ TokenAllocator.sequential.answers (chain 99).references ⟨1, []⟩ = .ok ([], ⟨1, []⟩)
      ∧ ¬ (chain 99).InReach ((chain 99).widened 98)
      ∧ ∃ e, EncodedBody.ofList (chain 99) .sequential ⟨1, []⟩ = .ok (e, ⟨1, []⟩) := by
  have encodable : (chain 99).Encodable := chain_encodable (by decide)
  have far : ¬ (chain 99).InReach ((chain 99).widened 98) := by
    rw [inReach_widened_chain]
    decide
  refine ⟨encodable, chain_granted 99, far, ?_⟩
  obtain ⟨_, written, _⟩ := EncodedBody.ofList_settles encodable (chain_granted 99)
  exact written ⟨99, by decide, inReach_widened_chain.2 (Nat.le_refl _)⟩

end Example

end HookWeave

import HookWeave.Proofs.Code.Relaxation

/-!
# Forms that are written

The code of a list holds every instruction with its own opcode, but for the short branches that it holds in
their long forms, and these are the least set of branches to widen so that no other is out of reach
(`EncodedBody.widened_isLeast`). They can be read off the code, since the bytes at the offset of an
instruction are those of its opcode (`EncodedBody.drop_emit`).
-/

namespace HookWeave

variable {σ : Type} {tokens : TokenAllocator σ} {s s' : σ} {layout : Layout} {bytes : Bytes}
  {l : InstructionList} {S : Finset InstrId} {e : EncodedBody} {ps : List Placed} {p : Placed}
  {i : Instruction} {k n : Nat}

namespace EncodedBody

/-- The opcode that the code holds where an instruction starts. -/
def opCodeAt? (e : EncodedBody) (id : InstrId) : Option OpCode := do
  let start ← (e.offsetOf (some id)).toOption
  (RawInstruction.readOpCode.value (e.code.drop start)).toOption

/-- The short branches of a list that the code holds with a displacement of four bytes. -/
def widened (e : EncodedBody) (l : InstructionList) : Finset InstrId :=
  l.shortBranches.filter fun id => (e.opCodeAt? id).any fun op => op.info.kind = .branch32

/-- The bytes of an instruction start with its opcode. -/
lemma drop_emit (consecutive : Consecutive n ps) (h : emit tokens layout ps s = .ok (bytes, s'))
    (hp : p ∈ ps) : ∃ rest, bytes.drop (p.start - n) = p.instruction.op.bytes ++ rest := by
  induction consecutive generalizing s bytes with
  | nil => cases hp
  | @cons q qs sized after ih =>
    obtain ⟨operand, s₁, written, h⟩ := run_bind_eq_ok.1 h
    obtain ⟨rest, s₂, emitted, h⟩ := run_bind_eq_ok.1 h
    obtain ⟨rfl, rfl⟩ := run_pure_eq_ok.1 h
    cases hp with
    | head => exact ⟨operand ++ rest, by rw [Nat.sub_self, List.drop_zero]⟩
    | tail _ hp =>
      obtain ⟨_, _, written⟩ := RawInstruction.written_of_operandBytes written
      have size : (q.instruction.op.bytes ++ operand).length = q.size := by
        rw [List.length_append, OpCode.length_bytes, written.length q.size sized]
      -- What comes before the piece is the first instruction and as much of the others as without it.
      have behind : q.start + q.size ≤ p.start := after.le_start hp
      have offset : p.start - q.start = (q.instruction.op.bytes ++ operand).length + (p.start - q.stop) := by
        rw [size, Placed.stop]
        omega
      rw [← List.append_assoc, offset, List.drop_length_add_append]
      exact ih emitted hp

/-- The code holds the instructions of the list one after another, the branches of the set in their long
forms. -/
structure WrittenIn (e : EncodedBody) (l : InstructionList) (S : Finset InstrId) (ps : List Placed) : Prop where
  placed : l.PlacedIn S ps
  starts : e.starts = ps.map fun p => (p.instruction.id, p.start)
  opcodes : ∀ p ∈ ps, ∃ rest, e.code.drop p.start = p.instruction.op.bytes ++ rest
  length : e.code.length = l.offsetIn S l.size

/-- A list is written with the least set of branches in their long forms. -/
lemma exists_writtenIn (h : ofList l tokens s = .ok (e, s')) :
    ∃ S ps, IsLeast {S | S ⊆ l.shortBranches ∧ l.InReach S} S ∧ e.WrittenIn l S ps := by
  obtain ⟨_, _, h⟩ := run_lift_bind_eq_ok.1 h
  obtain ⟨layout, laid, h⟩ := run_lift_bind_eq_ok.1 h
  obtain ⟨bytes, s₁, emitted, h⟩ := run_bind_eq_ok.1 h
  obtain ⟨rfl, rfl⟩ := run_pure_eq_ok.1 h
  have layable := InstructionList.layable_of_layout laid
  obtain ⟨ps, placed⟩ := layable.exists_placedIn (l.widened (Layout.maxPasses - 1))
  rw [layable.layout_eq] at laid
  split at laid
  · next reach =>
    cases placed.ofInstructions.symm.trans laid
    refine ⟨_, ps, InstructionList.isLeast_widened reach, placed, rfl, fun p hp => ?_, ?_⟩
    · exact drop_emit placed.consecutive emitted hp
    · rw [length_emit placed.consecutive emitted, placed.sum_size]
  · cases laid

namespace WrittenIn

/-- An instruction is at the offset of its position. -/
lemma offsetOf (h : e.WrittenIn l S ps) (hk : l.items[k]? = some i) :
    e.offsetOf (some i.id) = .ok (l.offsetIn S k) := by
  obtain ⟨p, hp, form, start, _⟩ := h.placed.piece hk
  have nodup : (ps.map (·.instruction.id)).Nodup := by
    have ids := (l.inForms S).nodup
    rw [← h.placed.placed, List.map_map] at ids
    exact ids
  have found := lookup_start nodup (List.mem_of_getElem? hp)
  rw [form, Instruction.formIn_id] at found
  rw [EncodedBody.offsetOf, h.starts]
  simp only [found, start]

/-- An instruction is written with the opcode of its form. -/
lemma opCodeAt? (h : e.WrittenIn l S ps) (hk : l.items[k]? = some i) :
    e.opCodeAt? i.id = some (i.formIn S).op := by
  obtain ⟨p, hp, form, start, _⟩ := h.placed.piece hk
  obtain ⟨rest, bytes⟩ := h.opcodes p (List.mem_of_getElem? hp)
  rw [EncodedBody.opCodeAt?, h.offsetOf hk, ← start, ← form]
  show (RawInstruction.readOpCode.value (e.code.drop p.start)).toOption = _
  rw [bytes, Reader.value, EStateM.run, Cursor.start, OpCode.reads_readOpCode p.instruction.op 0 rest]
  rfl

/-- The branches that the code holds in their long forms are those of the set. -/
lemma widened (h : e.WrittenIn l S ps) (sub : S ⊆ l.shortBranches) : e.widened l = S := by
  have long : ∀ id ∈ l.shortBranches,
      ((e.opCodeAt? id).any fun op => op.info.kind = .branch32) = true ↔ id ∈ S := by
    intro id branch
    obtain ⟨i, hi, short, rfl⟩ := InstructionList.mem_shortBranches.1 branch
    obtain ⟨k, hk⟩ := List.mem_iff_getElem?.1 hi
    obtain ⟨long, hlong⟩ := OpCode.isShortBranch_iff.1 short
    obtain ⟨near, far, _⟩ := OpCode.kind_of_longForm? hlong
    rw [h.opCodeAt? hk, Option.any_some, decide_eq_true_eq]
    by_cases mem : i.id ∈ S
    · rw [Instruction.formIn_of_mem mem hlong]
      exact iff_of_true far mem
    · rw [Instruction.formIn_of_notMem mem, near]
      exact iff_of_false (by decide) mem
  ext id
  rw [EncodedBody.widened, Finset.mem_filter]
  constructor
  · rintro ⟨branch, wide⟩
    exact (long id branch).1 wide
  · intro mem
    exact ⟨sub mem, (long id (sub mem)).2 mem⟩

end WrittenIn

/-- The branches that the code holds in their long forms are the least set of short branches outside of which
no short branch is out of reach. All other instructions keep their opcodes, and all are at the offsets at
which this puts them. -/
theorem widened_isLeast (h : ofList l tokens s = .ok (e, s')) :
    IsLeast {S | S ⊆ l.shortBranches ∧ l.InReach S} (e.widened l)
      ∧ (∀ i ∈ l.items, e.opCodeAt? i.id
        = if i.id ∈ e.widened l then i.op.longForm? else some i.op)
      ∧ (∀ (k : Nat) (i : Instruction), l.items[k]? = some i →
        e.offsetOf (some i.id) = .ok (l.offsetIn (e.widened l) k))
      ∧ e.code.length = l.offsetIn (e.widened l) l.size := by
  obtain ⟨S, ps, least, written⟩ := exists_writtenIn h
  have sub : S ⊆ l.shortBranches := least.1.1
  rw [written.widened sub]
  refine ⟨least, fun i hi => ?_, fun k i hk => written.offsetOf hk, written.length⟩
  obtain ⟨k, hk⟩ := List.mem_iff_getElem?.1 hi
  rw [written.opCodeAt? hk]
  split
  · next mem =>
    have short := (InstructionList.id_mem_shortBranches hi).1 (sub mem)
    obtain ⟨long, hlong⟩ := OpCode.isShortBranch_iff.1 short
    rw [Instruction.formIn_of_mem mem hlong, hlong]
  · next mem => rw [Instruction.formIn_of_notMem mem]

end EncodedBody

namespace Example

/-- Code with two branches to its end, the first of which leads over a jump table. -/
def detour : InstructionList :=
  .ofCode [(.brShort, .target ⟨3⟩), (.switch, .switch (List.replicate 31 ⟨0⟩)), (.brShort, .target ⟨3⟩),
    (.ret, .none)]

lemma detour_encodable : detour.Encodable where
  admitted := by
    refine List.forall_mem_cons.2 ⟨.near rfl, List.forall_mem_cons.2 ⟨.switch fun id hid => ?_, ?_⟩⟩
    · rw [List.eq_of_mem_replicate hid]
      rfl
    · exact List.forall_mem_cons.2 ⟨.near rfl, List.forall_mem_singleton.2 (.plain .none)⟩
  small := by decide

/-- One pass finds the first branch out of reach, and the next none. -/
lemma detour_inReach : detour.widened 1 = {⟨0⟩} ∧ detour.InReach (detour.widened 1) := by
  decide

/-- The detour is written with its first branch in the long form, and the second as it is. -/
theorem detour_taken : ∃ e log, EncodedBody.ofList detour .sequential ⟨1, []⟩ = .ok (e, log)
    ∧ e.widened detour = {⟨0⟩} ∧ e.opCodeAt? ⟨0⟩ = some .br ∧ e.opCodeAt? ⟨2⟩ = some .brShort
    ∧ e.offsetOf (some ⟨3⟩) = .ok 136 := by
  obtain ⟨widened, reach⟩ := detour_inReach
  have settles := InstructionList.exists_inReach_iff.1 ⟨1, by decide, reach⟩
  have granted : TokenAllocator.sequential.answers detour.references ⟨1, []⟩ = .ok ([], ⟨1, []⟩) := rfl
  obtain ⟨e, written⟩ := detour_encodable.exists_ofList granted settles
  obtain ⟨least, opcodes, offsets, _⟩ := EncodedBody.widened_isLeast written
  have first : e.widened detour = {⟨0⟩} :=
    widened ▸ least.unique (InstructionList.isLeast_widened reach)
  rw [first] at opcodes offsets
  refine ⟨e, ⟨1, []⟩, written, first, ?_, ?_, ?_⟩
  · exact opcodes ⟨⟨0⟩, .brShort, .target ⟨3⟩⟩ (by decide)
  · exact opcodes ⟨⟨2⟩, .brShort, .target ⟨3⟩⟩ (by decide)
  · exact offsets 3 ⟨⟨3⟩, .ret, .none⟩ (by decide)

end Example

end HookWeave

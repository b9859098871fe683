import HookWeave.Proofs.Code.Operands
import HookWeave.Proofs.Code.Same

/-!
# Code read back

Code that was encoded in fewer than 2^32 bytes is decoded to the same code, with every instruction at the
offset that it was encoded at (`DecodedBody.ofBytes_ofList`). What is emitted piece by piece reads as instructions with
offsets for targets (`emitted_of_emit`), and since these offsets are starts of the very layout that
was emitted, each is found again at the position of the instruction it stands for
(`mapM_resolve_eq_ok`).
-/

namespace HookWeave

variable {σ : Type} {tokens : TokenAllocator σ} {s s' : σ} {layout : Layout} {p : Placed}
  {ps : List Placed} {bytes : Bytes} {n k : Nat}

namespace RawInstruction

/-! ## Instructions one after another -/

/-- An instruction as it is read from its place. -/
structure ReadFrom (layout : Layout) (p : Placed) (raw : RawInstruction) : Prop where
  offset : raw.offset = p.start
  op : raw.op = p.instruction.op
  operand : layout.Located p.instruction.operand raw.operand

/-- What is written for instructions reads as these instructions. -/
structure Emitted (tokens : TokenAllocator σ) (layout : Layout) (n : Nat) (ps : List Placed) (s : σ)
    (bytes : Bytes) (s' : σ) (answered : Answers) (raws : List RawInstruction) : Prop where
  answers : tokens.answers (ps.flatMap (·.instruction.operand.references)) s = .ok (answered, s')
  readFrom : List.Forall₂ (ReadFrom layout) ps raws
  within : ∀ p ∈ ps, p.start < n + bytes.length
  reads : ∀ resolver : TokenResolver, resolver.Inverts answered → layout.Bounded →
    ∀ m, bytes.length ≤ m → (readAll resolver m).ReadsAll n bytes raws

/-- An instruction is read as its opcode and its operand. -/
lemma readsAt_read {resolver : TokenResolver} {raw : RawOperand}
    (h : (readOperand resolver p.instruction.op.info.kind).ReadsAt
      (p.start + p.instruction.op.size) bytes raw) :
    (read resolver).ReadsAt p.start (p.instruction.op.bytes ++ bytes)
      ⟨p.start, p.instruction.op, raw⟩ := by
  refine Reader.ReadsAt.bind (s := []) Reader.readsAt_position ?_
  refine (OpCode.reads_readOpCode _ _).bind ?_
  rw [p.instruction.op.length_bytes]
  exact h.bind_nil Reader.ReadsAt.pure

/-- Where there are bytes left, an instruction is read before the others. -/
lemma readAll_succ {resolver : TokenResolver} {t : Bytes} {i : RawInstruction}
    {is : List RawInstruction} (some : bytes ≠ []) (first : (read resolver).ReadsAt n bytes i)
    (others : (readAll resolver k).ReadsAll (n + bytes.length) t is) :
    (readAll resolver (k + 1)).ReadsAll n (bytes ++ t) (i :: is) := by
  have more : Cursor.hasMore ⟨n, bytes ++ t⟩ = true := Reader.hasMore_append some
  show (if Cursor.hasMore ⟨n, bytes ++ t⟩ = true then _ else _ : Reader _) ⟨n, bytes ++ t⟩ = _
  rw [if_pos more]
  refine first.bind_all ?_
  rw [Reader.ReadsAll, Reader.bind_apply, others]
  rfl

/-- What is written for instructions reads as these instructions. -/
lemma emitted_of_emit (consecutive : Consecutive n ps)
    (h : EncodedBody.emit tokens layout ps s = .ok (bytes, s')) :
    ∃ answered raws, Emitted tokens layout n ps s bytes s' answered raws := by
  induction consecutive generalizing s bytes with
  | nil =>
    obtain ⟨rfl, rfl⟩ := run_pure_eq_ok.1 h
    refine ⟨[], [], TokenAllocator.answers_nil, .nil, ?_, ?_⟩
    · intro p hp
      cases hp
    · intro resolver _ _ m _
      cases m <;> rfl
  | @cons p ps sized _ ih =>
    obtain ⟨operand, s₁, written, h⟩ := run_bind_eq_ok.1 h
    obtain ⟨rest, s₂, emitted, h⟩ := run_bind_eq_ok.1 h
    obtain ⟨rfl, rfl⟩ := run_pure_eq_ok.1 h
    obtain ⟨first, raw, written⟩ := written_of_operandBytes written
    obtain ⟨others, raws, emitted⟩ := ih emitted
    have size : (p.instruction.op.bytes ++ operand).length = p.size := by
      rw [List.length_append, OpCode.length_bytes, written.length p.size sized]
    have pos := Instruction.encodedSize_pos sized
    have total : p.start + (p.instruction.op.bytes ++ (operand ++ rest)).length
        = p.stop + rest.length := by
      rw [← List.append_assoc, List.length_append, size, Placed.stop, Nat.add_assoc]
    refine ⟨first ++ others, ⟨p.start, p.instruction.op, raw⟩ :: raws, ?_, ?_, ?_, ?_⟩
    · exact TokenAllocator.answers_append written.answers emitted.answers
    · exact .cons ⟨rfl, rfl, written.located⟩ emitted.readFrom
    · intro q hq
      rw [total]
      cases hq with
      | head =>
        unfold Placed.stop
        omega
      | tail _ hq => exact emitted.within q hq
    · intro resolver inverts bounded m enough
      obtain ⟨first_inverts, others_inverts⟩ := inverts.of_append
      have first_reads := readsAt_read (written.reads resolver (p.start + p.instruction.op.size)
        first_inverts bounded (by
          rw [Nat.add_assoc, written.length p.size sized]
          rfl))
      rw [← List.append_assoc, List.length_append, size] at enough
      obtain ⟨m, rfl⟩ : ∃ k, m = k + 1 := ⟨m - 1, by omega⟩
      have others_read := emitted.reads resolver others_inverts bounded m (by omega)
      rw [← List.append_assoc]
      refine readAll_succ (List.ne_nil_of_length_pos (size ▸ pos)) first_reads ?_
      rw [size]
      exact others_read

/-! ## Targets found again -/

/-- The target of an instruction is found at its position. -/
lemma one_eq_ok {l : InstructionList} {id : InstrId} {o : Nat} (laid : l.layout = .ok layout)
    (h : layout.startOf id = .ok o) :
    ∃ k, l.position? id = some k ∧ k < l.size
      ∧ resolveOperand.one (layout.placed.map (·.start)).idxOf? o = .ok ⟨k⟩ := by
  obtain ⟨k, p, position, hk, rfl⟩ := Layout.startOf_eq_ok laid h
  obtain ⟨_, consecutive, _⟩ := InstructionList.layout_eq_ok laid
  obtain ⟨i, listed, _⟩ := InstructionList.position?_eq_some.1 position
  refine ⟨k, position, (List.getElem?_eq_some_iff.1 listed).1, ?_⟩
  rw [resolveOperand.one, consecutive.idxOf?_start hk]

/-- An identity names the instruction at a position, and the position is that of another one. -/
def Found (l : InstructionList) (a b : InstrId) : Prop :=
  ∃ k, l.position? a = some k ∧ k < l.size ∧ b = ⟨k⟩

/-- The targets of an operand are found at their positions. -/
lemma resolveOperand_eq_ok {l : InstructionList} {v : Operand} {raw : RawOperand}
    (laid : l.layout = .ok layout) (h : layout.Located v raw) :
    ∃ w, resolveOperand (layout.placed.map (·.start)).idxOf? raw = .ok w ∧ v.SameBy (Found l) w := by
  cases h with
  | resolved targets => exact ⟨v, rfl, Operand.sameBy_self targets⟩
  | target start =>
    obtain ⟨k, position, bound, found⟩ := one_eq_ok laid start
    refine ⟨.target ⟨k⟩, ?_, ⟨k, position, bound, rfl⟩⟩
    exact map_eq_ok.2 ⟨⟨k⟩, found, rfl⟩
  | @switch ids os starts =>
    have all : ∃ bs, os.mapM (resolveOperand.one (layout.placed.map (·.start)).idxOf?) = .ok bs
        ∧ List.Forall₂ (Found l) ids bs := by
      induction starts with
      | nil => exact ⟨[], rfl, .nil⟩
      | cons start _ ih =>
        obtain ⟨k, position, bound, found⟩ := one_eq_ok laid start
        obtain ⟨bs, others, same⟩ := ih
        refine ⟨⟨k⟩ :: bs, ?_, .cons ⟨k, position, bound, rfl⟩ same⟩
        exact mapM_eq_ok.2 (.cons found (mapM_eq_ok.1 others))
    obtain ⟨bs, found, same⟩ := all
    exact ⟨.switch bs, map_eq_ok.2 ⟨bs, found, rfl⟩, same⟩

/-- An instruction with its targets found. -/
def resolve (offsets : List Nat) (i : RawInstruction) : Except Fault (OpCode × Operand) := do
  let operand ← resolveOperand offsets.idxOf? i.operand
  return (i.op, operand)

/-- The targets of all instructions are found at their positions. -/
lemma mapM_resolve_eq_ok {l : InstructionList} {raws : List RawInstruction}
    (laid : l.layout = .ok layout) (h : List.Forall₂ (ReadFrom layout) ps raws) :
    ∃ code, raws.mapM (resolve (layout.placed.map (·.start))) = .ok code
      ∧ List.Forall₂ (fun p c => c.1 = p.instruction.op
        ∧ p.instruction.operand.SameBy (Found l) c.2) ps code := by
  induction h with
  | nil => exact ⟨[], rfl, .nil⟩
  | @cons p raw _ _ first _ ih =>
    obtain ⟨code, others, same⟩ := ih
    obtain ⟨w, found, sameOperand⟩ := resolveOperand_eq_ok laid first.operand
    refine ⟨(raw.op, w) :: code, ?_, .cons ⟨first.op, sameOperand⟩ same⟩
    exact mapM_eq_ok.2 (.cons (bind_eq_ok.2 ⟨w, found, rfl⟩) (mapM_eq_ok.1 others))

end RawInstruction

/-! ## Code under the identities 0, 1, 2 and so on -/

/-- In numbered code a position is the identity of the instruction there. -/
lemma InstructionList.position?_ofCode {code : List (OpCode × Operand)} (h : k < code.length) :
    (ofCode code).position? ⟨k⟩ = some k := by
  refine position?_eq_some.2 ⟨⟨⟨k⟩, code[k].1, code[k].2⟩, ?_, rfl⟩
  show (number 0 code)[k]? = _
  rw [getElem?_number, List.getElem?_eq_getElem h, Nat.zero_add]
  rfl

/-! ## The round trip -/

/-- Decoded code says what a list and its encoded form say: it is the same code, every instruction
is at the offset that it was written at, and the end is the end. -/
structure DecodedBody.Matches (d : DecodedBody) (e : EncodedBody) (l : InstructionList) : Prop where
  same : l.SameCode d.instructions
  offsets : ∀ (k : Nat) (i j : Instruction), l.items[k]? = some i →
    d.instructions.items[k]? = some j →
    ∃ o, e.offsetOf (some i.id) = .ok o ∧ o < e.code.length ∧ d.instructionAt o = .ok (some j.id)
  stop : ∃ o, e.offsetOf none = .ok o ∧ d.instructionAt o = .ok none

variable {l : InstructionList} {e : EncodedBody}

/-- The start of a piece is found by its identity. -/
lemma lookup_start (nodup : (ps.map (·.instruction.id)).Nodup) (h : p ∈ ps) :
    (ps.map fun p => (p.instruction.id, p.start)).lookup p.instruction.id = some p.start := by
  induction ps with
  | nil => cases h
  | cons q ps ih =>
    obtain ⟨fresh, nodup⟩ := List.nodup_cons.1 nodup
    rw [List.map_cons]
    cases h with
    | head => exact List.lookup_cons_self
    | tail _ h =>
      have other : (p.instruction.id == q.instruction.id) = false := by
        refine beq_eq_false_iff_ne.2 fun same => fresh ?_
        exact List.mem_map.2 ⟨p, h, same⟩
      rw [List.lookup_cons, other]
      exact ih nodup h

/-- The forms that are placed have the identities of the list. -/
lemma InstructionList.map_id_placed (h : l.layout = .ok layout) :
    layout.placed.map (·.instruction.id) = l.items.map (·.id) := by
  obtain ⟨wide, _⟩ := l.layout_eq_ok h
  rw [← List.forall₂_eq_eq_eq, List.forall₂_map_right_iff, List.forall₂_map_left_iff]
  rw [List.forall₂_map_right_iff] at wide
  exact wide.flip.imp fun _ _ widens => widens.id

/-- The references of the forms that are placed are those of the list. -/
lemma InstructionList.references_placed (h : l.layout = .ok layout) :
    layout.placed.flatMap (·.instruction.operand.references) = l.references := by
  obtain ⟨wide, _⟩ := l.layout_eq_ok h
  have operands : layout.placed.map (·.instruction.operand) = l.items.map (·.operand) := by
    rw [← List.forall₂_eq_eq_eq, List.forall₂_map_right_iff, List.forall₂_map_left_iff]
    rw [List.forall₂_map_right_iff] at wide
    exact wide.flip.imp fun _ _ widens => widens.operand
  have held := congrArg (List.map Operand.references) operands
  rw [List.map_map, List.map_map] at held
  exact congrArg List.flatten held

/-- A layout of code of less than 4 GiB starts everything at offsets that fit. -/
lemma Layout.bounded_of_within (laid : l.layout = .ok layout) (small : n < UInt32.size)
    (within : ∀ p ∈ layout.placed, p.start < n) : layout.Bounded := by
  intro id o start
  obtain ⟨_, p, _, hk, rfl⟩ := Layout.startOf_eq_ok laid start
  exact Nat.lt_trans (within p (List.mem_of_getElem? hk)) small

/-- Decoded instructions are the instructions of the list, with their targets at the same
positions. -/
lemma InstructionList.sameCode_ofCode {code : List (OpCode × Operand)} (laid : l.layout = .ok layout)
    (h : List.Forall₂ (fun p c => c.1 = p.instruction.op
      ∧ p.instruction.operand.SameBy (RawInstruction.Found l) c.2) layout.placed code) :
    l.SameCode (ofCode code) := by
  obtain ⟨wide, _⟩ := l.layout_eq_ok laid
  have length : l.size = code.length := by
    rw [← h.length_eq, size, wide.length_eq, List.length_map]
  have position : ∀ a b, RawInstruction.Found l a b → l.SamePosition (ofCode code) a b := by
    rintro a _ ⟨k, found, bound, rfl⟩
    exact ⟨k, found, position?_ofCode (length ▸ bound)⟩
  rw [List.forall₂_map_right_iff] at wide
  have forms : List.Forall₂ (fun i c => (c.1 = i.op ∨ i.op.longForm? = some c.1)
      ∧ i.operand.SameBy (l.SamePosition (ofCode code)) c.2) l.items code := by
    refine forall₂_comp wide h ?_
    rintro i p c widens ⟨op, operand⟩
    rw [op, ← widens.operand]
    exact ⟨widens.op, operand.imp position⟩
  refine forall₂_comp forms (forall₂_number code) ?_
  rintro i c j ⟨op, operand⟩ ⟨sameOp, sameOperand⟩
  refine ⟨?_, ?_⟩
  · rw [sameOp]
    exact op
  · rw [sameOperand]
    exact operand

/-- Code is decoded to the instructions read from it, with their targets found. -/
lemma DecodedBody.ofBytes_eq_ok {resolver : TokenResolver} {raws : List RawInstruction}
    {code : List (OpCode × Operand)} (small : bytes.length < UInt32.size)
    (read : (RawInstruction.readAll resolver bytes.length).ReadsAll 0 bytes raws)
    (found : raws.mapM (RawInstruction.resolve (raws.map (·.offset))) = .ok code) :
    ofBytes bytes resolver = .ok ⟨.ofCode code, raws.map (·.offset), bytes.length⟩ := by
  unfold ofBytes
  rw [if_neg (Nat.not_le_of_lt small)]
  exact bind_eq_ok.2 ⟨raws, read.value, bind_eq_ok.2 ⟨code, found, rfl⟩⟩

/-- Instructions are read at the offsets at which they were placed. -/
lemma RawInstruction.map_offset {raws : List RawInstruction}
    (h : List.Forall₂ (ReadFrom layout) ps raws) : raws.map (·.offset) = ps.map (·.start) := by
  induction h with
  | nil => rfl
  | cons first _ ih => rw [List.map_cons, List.map_cons, first.offset, ih]

/-- Every instruction of the list is decoded at the offset at which it was encoded. -/
lemma DecodedBody.instructionAt_offsetOf {i j : Instruction} {code : List (OpCode × Operand)}
    (laid : l.layout = .ok layout) (within : ∀ p ∈ layout.placed, p.start < bytes.length)
    (hi : l.items[k]? = some i) (hj : (InstructionList.ofCode code).items[k]? = some j) :
    ∃ o, EncodedBody.offsetOf ⟨bytes, layout.placed.map fun p => (p.instruction.id, p.start)⟩
        (some i.id) = .ok o
      ∧ o < bytes.length
      ∧ instructionAt ⟨.ofCode code, layout.placed.map (·.start), bytes.length⟩ o
        = .ok (some j.id) := by
  obtain ⟨wide, consecutive, _⟩ := l.layout_eq_ok laid
  rw [List.forall₂_map_right_iff] at wide
  obtain ⟨p, hp, widens⟩ := forall₂_getElem? wide hi
  have listed := List.mem_of_getElem? hp
  have nodup : (layout.placed.map (·.instruction.id)).Nodup := by
    rw [l.map_id_placed laid]
    exact l.nodup
  refine ⟨p.start, ?_, within p listed, ?_⟩
  · rw [EncodedBody.offsetOf, ← widens.id, lookup_start nodup listed]
  · have id : j.id = ⟨k⟩ := by
      have hj : (InstructionList.number 0 code)[k]? = some j := hj
      rw [InstructionList.getElem?_number, Nat.zero_add, Option.map_eq_some_iff] at hj
      obtain ⟨c, _, rfl⟩ := hj
      rfl
    rw [instructionAt, if_neg (Nat.ne_of_lt (within p listed)), consecutive.idxOf?_start hp, id]

/-- A list holds the forms in which the instructions of another are laid out, under the identities
0, 1, 2 and so on. -/
def InstructionList.LaidAs (l m : InstructionList) : Prop :=
  ∃ layout code, l.layout = .ok layout ∧ m = ofCode code
    ∧ code.map Prod.fst = layout.placed.map (·.instruction.op)

/-- Code of less than 4 GiB is decoded to what was encoded, in the forms of its layout. -/
lemma DecodedBody.laidAs_of_ofList (h : EncodedBody.ofList l tokens s = .ok (e, s')) :
    ∃ answered, tokens.answers l.references s = .ok (answered, s') ∧
      ∀ resolver : TokenResolver, resolver.Inverts answered → e.code.length < UInt32.size →
        ∃ d, DecodedBody.ofBytes e.code resolver = .ok d ∧ d.Matches e l
          ∧ l.LaidAs d.instructions := by
  obtain ⟨_, _, h⟩ := run_lift_bind_eq_ok.1 h
  obtain ⟨layout, laid, h⟩ := run_lift_bind_eq_ok.1 h
  obtain ⟨bytes, s₁, emitted, h⟩ := run_bind_eq_ok.1 h
  obtain ⟨rfl, rfl⟩ := run_pure_eq_ok.1 h
  obtain ⟨_, consecutive, _⟩ := l.layout_eq_ok laid
  obtain ⟨answered, raws, emitted⟩ := RawInstruction.emitted_of_emit consecutive emitted
  have answers := emitted.answers
  rw [l.references_placed laid] at answers
  refine ⟨answered, answers, fun resolver inverts small => ?_⟩
  have within : ∀ p ∈ layout.placed, p.start < bytes.length := by
    intro p hp
    have := emitted.within p hp
    rw [Nat.zero_add] at this
    exact this
  have bounded := Layout.bounded_of_within laid small within
  have read := emitted.reads resolver inverts bounded bytes.length (Nat.le_refl _)
  have offsets := RawInstruction.map_offset emitted.readFrom
  obtain ⟨code, found, same⟩ := RawInstruction.mapM_resolve_eq_ok laid emitted.readFrom
  rw [← offsets] at found
  refine ⟨_, DecodedBody.ofBytes_eq_ok small read found, ⟨?_, ?_, ?_⟩, layout, code, laid, rfl, ?_⟩
  · exact InstructionList.sameCode_ofCode laid same
  · intro k i j hi hj
    rw [offsets]
    exact DecodedBody.instructionAt_offsetOf laid within hi hj
  · refine ⟨bytes.length, if_pos small, if_pos rfl⟩
  · rw [← List.forall₂_eq_eq_eq, List.forall₂_map_left_iff, List.forall₂_map_right_iff]
    exact same.flip.imp fun _ _ form => form.1

/-- Code of less than 4 GiB is decoded to what was encoded. -/
lemma DecodedBody.matches_of_ofList (h : EncodedBody.ofList l tokens s = .ok (e, s')) :
    ∃ answered, tokens.answers l.references s = .ok (answered, s') ∧
      ∀ resolver : TokenResolver, resolver.Inverts answered → e.code.length < UInt32.size →
        ∃ d, DecodedBody.ofBytes e.code resolver = .ok d ∧ d.Matches e l := by
  obtain ⟨answered, answers, decodes⟩ := laidAs_of_ofList h
  refine ⟨answered, answers, fun resolver inverts small => ?_⟩
  obtain ⟨d, decoded, same, _⟩ := decodes resolver inverts small
  exact ⟨d, decoded, same⟩

/-- Only listed instructions have an offset. -/
lemma EncodedBody.position_of_offsetOf {id : InstrId} {o : Nat}
    (h : EncodedBody.ofList l tokens s = .ok (e, s')) (ho : e.offsetOf (some id) = .ok o) :
    ∃ k, l.position? id = some k := by
  obtain ⟨_, _, h⟩ := run_lift_bind_eq_ok.1 h
  obtain ⟨layout, laid, h⟩ := run_lift_bind_eq_ok.1 h
  obtain ⟨bytes, s₁, emitted, h⟩ := run_bind_eq_ok.1 h
  obtain ⟨rfl, rfl⟩ := run_pure_eq_ok.1 h
  rw [← InstructionList.contains_iff_position?, InstructionList.contains, List.any_eq_true]
  have placed : id ∈ layout.placed.map (·.instruction.id) := by
    unfold offsetOf at ho
    simp only at ho
    split at ho
    · next start found =>
      have listed := List.lookup_isSome_iff.1 (Option.isSome_iff_exists.2 ⟨start, found⟩)
      obtain ⟨entry, hentry, same⟩ := listed
      obtain ⟨p, hp, rfl⟩ := List.mem_map.1 hentry
      exact List.mem_map.2 ⟨p, hp, (beq_iff_eq.1 same).symm⟩
    · cases ho
  rw [l.map_id_placed laid] at placed
  obtain ⟨i, hi, same⟩ := List.mem_map.1 placed
  exact ⟨i, hi, decide_eq_true same⟩

/-- Where an instruction starts, the instruction at its position was decoded. -/
lemma DecodedBody.Matches.start {d : DecodedBody} {id : InstrId} {o : Nat} (m : d.Matches e l)
    (h : EncodedBody.ofList l tokens s = .ok (e, s')) (ho : e.offsetOf (some id) = .ok o) :
    ∃ a, l.SamePosition d.instructions id a ∧ o < e.code.length
      ∧ d.instructionAt o = .ok (some a) := by
  obtain ⟨k, position⟩ := EncodedBody.position_of_offsetOf h ho
  obtain ⟨i, hi, rfl⟩ := InstructionList.position?_eq_some.1 position
  obtain ⟨j, hj, _⟩ := forall₂_getElem? m.same hi
  obtain ⟨o', found, within, decoded⟩ := m.offsets k i j hi hj
  rw [ho] at found
  cases found
  exact ⟨j.id, ⟨k, position, InstructionList.position?_getElem hj⟩, within, decoded⟩

/-- Where a region stops, the instruction behind it was decoded, or the code ends. -/
lemma DecodedBody.Matches.stops {d : DecodedBody} {id : Option InstrId} {o : Nat}
    (m : d.Matches e l) (h : EncodedBody.ofList l tokens s = .ok (e, s'))
    (ho : e.offsetOf id = .ok o) :
    ∃ a, Option.Rel (l.SamePosition d.instructions) id a ∧ o ≤ e.code.length
      ∧ d.instructionAt o = .ok a := by
  cases id with
  | some id =>
    obtain ⟨a, same, within, decoded⟩ := m.start h ho
    exact ⟨some a, .some same, Nat.le_of_lt within, decoded⟩
  | none =>
    obtain ⟨o', found, decoded⟩ := m.stop
    rw [ho] at found
    cases found
    unfold EncodedBody.offsetOf at ho
    simp only at ho
    split at ho
    · cases ho
      exact ⟨none, .none, Nat.le_refl _, decoded⟩
    · cases ho

lemma DecodedBody.ofBytes_of_large {resolver : TokenResolver} (large : UInt32.size ≤ bytes.length) :
    DecodedBody.ofBytes bytes resolver = .error (.malformed (.codeTooLarge bytes.length)) := by
  unfold ofBytes
  rw [if_pos large]
  rfl

lemma EncodedBody.offsetOf_of_large (large : UInt32.size ≤ e.code.length) :
    e.offsetOf none = .error (.malformed .bodyTooLarge) :=
  if_neg (Nat.not_lt_of_le large)

/-- Code of less than 4 GiB that an allocator keeping references apart encodes is decoded to the same
code, by any resolver that maps its tokens back. Nothing keeps the encoder from writing more, which the
decoder refuses (`Example.wide_switch_refused`). -/
theorem DecodedBody.ofBytes_ofList (distinct : tokens.Distinct s)
    (h : EncodedBody.ofList l tokens s = .ok (e, s')) (small : e.code.length < UInt32.size) :
    ∃ answered, tokens.answers l.references s = .ok (answered, s')
      ∧ (TokenResolver.ofAnswers answered).Inverts answered
      ∧ ∀ resolver : TokenResolver, resolver.Inverts answered →
        ∃ d, DecodedBody.ofBytes e.code resolver = .ok d ∧ d.Matches e l := by
  obtain ⟨answered, answers, decodes⟩ := matches_of_ofList h
  exact ⟨answered, answers, distinct.inverts answers, fun resolver inverts =>
    decodes resolver inverts small⟩

namespace Example

/-- Code that goes round a text as long as it is not null. -/
def loop : InstructionList :=
  .ofCode [(.ldstr, .string "ready"), (.brtrueShort, .target ⟨0⟩), (.ret, .none)]

/-- The layout of the loop. -/
def loopLayout : Layout where
  placed := [⟨⟨⟨0⟩, .ldstr, .string "ready"⟩, 0, 5⟩, ⟨⟨⟨1⟩, .brtrueShort, .target ⟨0⟩⟩, 5, 2⟩,
    ⟨⟨⟨2⟩, .ret, .none⟩, 7, 1⟩]
  starts := #[0, 5, 7]
  index := loop.index

/-- The branch goes back over both instructions. -/
lemma loop_displacement :
    loopLayout.displacement ⟨⟨⟨1⟩, .brtrueShort, .target ⟨0⟩⟩, 5, 2⟩ ⟨0⟩ = .ok (-7) := by
  have first : loop.index.position ⟨0⟩ = .ok 0 := InstructionList.index_position.2 (by decide)
  exact bind_eq_ok.2 ⟨0, bind_eq_ok.2 ⟨0, first, rfl⟩, rfl⟩

/-- The layout of the loop is stable. -/
lemma loop_layout : loop.layout = .ok loopLayout := by
  refine Layout.relax_of_widenAll rfl (mapM_eq_ok.2 ?_)
  exact .cons rfl (.cons (bind_eq_ok.2 ⟨-7, loop_displacement, rfl⟩) (.cons rfl .nil))

/-- The loop as bytes. -/
lemma loop_encoded : EncodedBody.ofList loop .sequential ⟨1, []⟩ = .ok
    (⟨[0x72, 1, 0, 0, 0x70, 0x2D, 0xF9, 0x2A], [(⟨0⟩, 0), (⟨1⟩, 5), (⟨2⟩, 7)]⟩,
      ⟨2, [(⟨0x70000001⟩, "ready")]⟩) := by
  refine run_lift_bind_eq_ok.2 ⟨(), rfl, run_lift_bind_eq_ok.2 ⟨loopLayout, loop_layout, ?_⟩⟩
  refine run_bind_eq_ok.2 ⟨_, _, ?_, rfl⟩
  refine run_bind_eq_ok.2 ⟨[1, 0, 0, 0x70], _, rfl, ?_⟩
  refine run_bind_eq_ok.2 ⟨[0x2D, 0xF9, 0x2A], _, ?_, rfl⟩
  exact run_bind_eq_ok.2 ⟨[0xF9], _, run_lift_bind_eq_ok.2 ⟨-7, loop_displacement, rfl⟩, rfl⟩

/-- The loop comes back from its bytes. -/
theorem loop_decoded :
    TokenAllocator.sequential.Distinct ⟨1, []⟩
      ∧ EncodedBody.ofList loop .sequential ⟨1, []⟩ = .ok
        (⟨[0x72, 1, 0, 0, 0x70, 0x2D, 0xF9, 0x2A], [(⟨0⟩, 0), (⟨1⟩, 5), (⟨2⟩, 7)]⟩,
          ⟨2, [(⟨0x70000001⟩, "ready")]⟩)
      ∧ [0x72, 1, 0, 0, 0x70, 0x2D, 0xF9, (0x2A : UInt8)].length < UInt32.size
      ∧ ∃ d, DecodedBody.ofBytes [0x72, 1, 0, 0, 0x70, 0x2D, 0xF9, 0x2A]
          (.ofAnswers [(.string "ready", ⟨0x70000001⟩)]) = .ok d
        ∧ d.Matches ⟨[0x72, 1, 0, 0, 0x70, 0x2D, 0xF9, 0x2A], [(⟨0⟩, 0), (⟨1⟩, 5), (⟨2⟩, 7)]⟩
          loop := by
  have distinct := TokenAllocator.sequential_distinct ⟨1, []⟩
  obtain ⟨answered, answers, inverts, decodes⟩ :=
    DecodedBody.ofBytes_ofList distinct loop_encoded (by decide)
  cases answers
  exact ⟨distinct, loop_encoded, by decide, decodes _ inverts⟩

/-- A jump table in which every entry goes to the return behind it. -/
def wideSwitch (n : Nat) : InstructionList :=
  .ofCode [(.switch, .switch (List.replicate n ⟨1⟩)), (.ret, .none)]

/-- The place of the jump table. -/
def wideSwitchPlaced (n : Nat) : Placed :=
  ⟨⟨⟨0⟩, .switch, .switch (List.replicate n ⟨1⟩)⟩, 0, 1 + (4 + 4 * n)⟩

/-- Its layout. -/
def wideSwitchLayout (n : Nat) : Layout where
  placed := [wideSwitchPlaced n, ⟨⟨⟨1⟩, .ret, .none⟩, 0 + (1 + (4 + 4 * n)), 1⟩]
  starts := #[0, 0 + (1 + (4 + 4 * n))]
  index := (wideSwitch n).index

/-- The layout of the jump table is stable. -/
lemma wideSwitch_layout : (wideSwitch n).layout = .ok (wideSwitchLayout n) := by
  have sized : (wideSwitchPlaced n).instruction.encodedSize = .ok (1 + (4 + 4 * n)) := by
    show Except.ok (1 + (4 + 4 * (List.replicate n (⟨1⟩ : InstrId)).length)) = _
    rw [List.length_replicate]
  have placed : placeFrom 0 (wideSwitch n).items = .ok (wideSwitchLayout n).placed :=
    bind_eq_ok.2 ⟨_, sized, rfl⟩
  refine Layout.relax_of_widenAll (bind_eq_ok.2 ⟨_, placed, rfl⟩) (mapM_eq_ok.2 ?_)
  exact .cons rfl (.cons rfl .nil)

/-- Its entries lead on by nothing. -/
lemma wideSwitch_displacement :
    (wideSwitchLayout n).displacement (wideSwitchPlaced n) ⟨1⟩ = .ok 0 := by
  have behind : (wideSwitch n).index.position ⟨1⟩ = .ok 1 := InstructionList.index_position.2 rfl
  refine bind_eq_ok.2 ⟨_, bind_eq_ok.2 ⟨1, behind, rfl⟩, ?_⟩
  exact congrArg Except.ok (Int.sub_self _)

lemma wideSwitch_entries :
    EncodedBody.jumpTable (wideSwitchLayout n) (wideSwitchPlaced n) (List.replicate k ⟨1⟩)
      = .ok (List.replicate (4 * k) 0) := by
  induction k with
  | zero => rfl
  | succ k ih =>
    refine bind_eq_ok.2 ⟨0, wideSwitch_displacement, bind_eq_ok.2 ⟨[0, 0, 0, 0], rfl,
      bind_eq_ok.2 ⟨_, ih, ?_⟩⟩⟩
    rfl

/-- The jump table as bytes. -/
lemma wideSwitch_encoded {σ : Type} {tokens : TokenAllocator σ} {s : σ} (few : n < UInt32.size) :
    EncodedBody.ofList (wideSwitch n) tokens s = .ok
      (⟨0x45 :: (Encoding.uint32 (UInt32.ofNat n) ++ List.replicate (4 * n) 0 ++ [0x2A]),
        [(⟨0⟩, 0), (⟨1⟩, 0 + (1 + (4 + 4 * n)))]⟩, s) := by
  have listed : ∀ i ∈ (wideSwitch n).items, ∀ id ∈ i.operand.targets,
      (wideSwitch n).contains id = true := by
    intro i hi id named
    obtain rfl | rfl := List.mem_pair.1 hi
    · rw [List.eq_of_mem_replicate named]
      rfl
    · cases named
  have table : EncodedBody.operandBytes tokens (wideSwitchLayout n) (wideSwitchPlaced n) s = .ok
      (Encoding.uint32 (UInt32.ofNat n) ++ List.replicate (4 * n) 0, s) := by
    have counted : (List.replicate n (⟨1⟩ : InstrId)).length = n := List.length_replicate
    have fits : ¬ UInt32.size ≤ (List.replicate n (⟨1⟩ : InstrId)).length := by
      rw [counted]
      exact Nat.not_le_of_lt few
    refine (congrFun (if_neg fits) s).trans (run_lift_bind_eq_ok.2 ⟨_, wideSwitch_entries, ?_⟩)
    rw [counted]
    rfl
  refine run_lift_bind_eq_ok.2 ⟨(), InstructionList.validateTargets_of_listed listed,
    run_lift_bind_eq_ok.2 ⟨wideSwitchLayout n, wideSwitch_layout, ?_⟩⟩
  have emitted : EncodedBody.emit tokens (wideSwitchLayout n) (wideSwitchLayout n).placed s = .ok
      (0x45 :: (Encoding.uint32 (UInt32.ofNat n) ++ List.replicate (4 * n) 0 ++ [0x2A]), s) :=
    run_bind_eq_ok.2 ⟨_, _, table, run_bind_eq_ok.2 ⟨[0x2A], _, rfl, rfl⟩⟩
  exact run_bind_eq_ok.2 ⟨_, _, emitted, rfl⟩

/-- A jump table of 4 GiB is encoded. No resolver decodes it, and its end has no offset. -/
theorem wide_switch_refused :
    TokenAllocator.sequential.Distinct ⟨1, []⟩
      ∧ ∃ e, EncodedBody.ofList (wideSwitch 1073741824) .sequential ⟨1, []⟩ = .ok (e, ⟨1, []⟩)
        ∧ (∀ resolver, DecodedBody.ofBytes e.code resolver
          = .error (.malformed (.codeTooLarge e.code.length)))
        ∧ e.offsetOf none = .error (.malformed .bodyTooLarge) := by
  have large : UInt32.size ≤ (0x45 :: (Encoding.uint32 (UInt32.ofNat 1073741824)
      ++ List.replicate (4 * 1073741824) 0 ++ [0x2A])).length := by
    rw [List.length_cons, List.length_append, List.length_append, List.length_replicate]
    show 4294967296 ≤ 4 + 4 * 1073741824 + 1 + 1
    decide
  refine ⟨TokenAllocator.sequential_distinct ⟨1, []⟩, _, wideSwitch_encoded (by decide), ?_⟩
  exact ⟨fun resolver => DecodedBody.ofBytes_of_large large, EncodedBody.offsetOf_of_large large⟩

end Example

end HookWeave

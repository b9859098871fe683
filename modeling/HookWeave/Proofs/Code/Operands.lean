import HookWeave.Code.Encoded
import HookWeave.Proofs.Code.Answers
import HookWeave.Proofs.Code.Layouts

/-!
# Operands read back

What is written for an operand reads as that operand, with the offsets of its targets in the layout
in their place and its reference under the token that was given to it (`written_of_operandBytes`).
Displacements count from the end of the instruction on both sides, which for a jump table is the
end of the table.
-/

namespace HookWeave

/-- An operand as it is read from code in a layout. -/
inductive Layout.Located (l : Layout) : Operand → RawOperand → Prop
  | resolved {operand : Operand} : operand.targets = [] → Located l operand (.resolved operand)
  | target {id : InstrId} {o : Nat} : l.startOf id = .ok o → Located l (.target id) (.target o)
  | switch {ids : List InstrId} {os : List Nat} :
    List.Forall₂ (fun id o => l.startOf id = .ok o) ids os → Located l (.switch ids) (.switch os)

/-- The starts of a layout are offsets that displacements can lead to. -/
def Layout.Bounded (l : Layout) : Prop :=
  ∀ id o, l.startOf id = .ok o → o < UInt32.size

/-- What is written for the operand of a piece, in the state `s`, reads as the operand. -/
structure Written {σ : Type} (tokens : TokenAllocator σ) (l : Layout) (p : Placed) (s : σ)
    (bytes : Bytes) (s' : σ) (answered : Answers) (raw : RawOperand) : Prop where
  answers : tokens.answers p.instruction.operand.references s = .ok (answered, s')
  located : l.Located p.instruction.operand raw
  length : ∀ size, p.instruction.encodedSize = .ok size →
    p.instruction.op.size + bytes.length = size
  reads : ∀ resolver pos, resolver.Inverts answered → l.Bounded → pos + bytes.length = p.stop →
    (RawInstruction.readOperand resolver p.instruction.op.info.kind).ReadsAt pos bytes raw

namespace RawInstruction

variable {l : Layout} {p : Placed} {id : InstrId} {d : Int} {o pos stop : Nat} {bytes : Bytes}

/-! ## Displacements -/

/-- A displacement leads from the end of an instruction to the start of its target. -/
lemma displacement_eq_ok (h : l.displacement p id = .ok d) :
    ∃ o, l.startOf id = .ok o ∧ d = o - p.stop := by
  obtain ⟨o, start, h⟩ := bind_eq_ok.1 h
  cases h
  exact ⟨o, start, rfl⟩

/-- From the end of the instruction a displacement leads to its target. -/
lemma offsetFrom_displacement (bounded : o < UInt32.size) : offsetFrom stop ((o : Int) - stop) = .ok o := by
  have target : (stop : Int) + (o - stop) = o := by omega
  simp only [offsetFrom, target]
  rw [if_pos ⟨by omega, by omega⟩, Int.toNat_natCast]

/-- A target reads back if its displacement does. -/
lemma readsAt_readTarget {r : Reader Int} (hr : r.Reads bytes d) (hd : d = o - stop)
    (bounded : o < UInt32.size) (after : pos + bytes.length = stop) :
    (readTarget r).ReadsAt pos bytes (.target o) := by
  refine (hr pos).bind_nil ?_
  refine Reader.readsAt_position.bind_nil ?_
  rw [after, hd, offsetFrom_displacement bounded]
  exact Reader.ReadsAt.pure

/-- A displacement of one byte reads back. -/
lemma reads_displacement8 (h : EncodedBody.displacement8 d = .ok bytes) :
    ∃ v : Int8, v.toInt = d ∧ Reader.int8.Reads bytes v ∧ bytes.length = 1 := by
  unfold EncodedBody.displacement8 Layout.fitsByte at h
  split at h
  · next fits =>
    cases h
    rw [Bool.and_eq_true, decide_eq_true_eq, decide_eq_true_eq] at fits
    refine ⟨Int8.ofInt d, ?_, Reader.reads_int8 _, rfl⟩
    exact Int8.toInt_ofInt_of_le (by omega) (by omega)
  · cases h

/-- A displacement of four bytes reads back. -/
lemma reads_displacement32 {cause : Int → Malformation}
    (h : EncodedBody.displacement32 cause d = .ok bytes) :
    ∃ v : Int32, v.toInt = d ∧ Reader.int32.Reads bytes v ∧ bytes.length = 4 := by
  unfold EncodedBody.displacement32 at h
  split at h
  · next fits =>
    cases h
    refine ⟨Int32.ofInt d, ?_, Reader.reads_int32 _, Reader.length_littleEndian _ _⟩
    exact Int32.toInt_ofInt_of_le fits.1 fits.2
  · cases h

/-! ## Jump tables -/

/-- The entries of a jump table take four bytes each and read back as the starts of the targets. -/
lemma readsAt_readTargets {ids : List InstrId} (h : EncodedBody.jumpTable l p ids = .ok bytes) :
    ∃ os, List.Forall₂ (fun id o => l.startOf id = .ok o) ids os ∧ bytes.length = 4 * ids.length
      ∧ (l.Bounded → (readTargets p.stop ids.length).Reads bytes os) := by
  induction ids generalizing bytes with
  | nil =>
    cases h
    exact ⟨[], .nil, rfl, fun _ => Reader.Reads.pure⟩
  | cons id ids ih =>
    obtain ⟨d, displaced, h⟩ := bind_eq_ok.1 h
    obtain ⟨entry, written, h⟩ := bind_eq_ok.1 h
    obtain ⟨entries, others, h⟩ := bind_eq_ok.1 h
    cases h
    obtain ⟨o, start, rfl⟩ := displacement_eq_ok displaced
    obtain ⟨os, starts, length, reads⟩ := ih others
    obtain ⟨v, value, read, four⟩ := reads_displacement32 written
    refine ⟨o :: os, .cons start starts, ?_, fun bounded => ?_⟩
    · rw [List.length_append, four, length, List.length_cons]
      omega
    · refine read.bind ?_
      rw [value, offsetFrom_displacement (bounded id o start)]
      exact (reads bounded).bind_pure

/-- A jump table reads back: its entries are as many as it says, and count from its end. -/
lemma readsAt_readSwitch {n : Nat} {entries : Bytes} {os : List Nat} (few : n < UInt32.size)
    (length : entries.length = 4 * n) (after : pos + 4 + entries.length = stop)
    (reads : (readTargets stop n).Reads entries os) :
    readSwitch.ReadsAt pos (Encoding.uint32 (UInt32.ofNat n) ++ entries) (.switch os) := by
  have count : (UInt32.ofNat n).toNat = n := UInt32.toNat_ofNat_of_lt few
  have width : (Encoding.uint32 (UInt32.ofNat n)).length = 4 := Reader.length_littleEndian _ _
  refine (Reader.reads_uint32 (UInt32.ofNat n) pos).bind ?_
  rw [count, width]
  intro rest
  have fits : Cursor.endAfter ⟨pos + 4, entries ++ rest⟩ (4 * n) = .ok stop := by
    unfold Cursor.endAfter Cursor.size
    rw [if_pos (by rw [List.length_append]; omega), ← length, after]
  have read : (readTargets stop n >>= fun os => pure (RawOperand.switch os)).ReadsAt (pos + 4)
    entries (.switch os) := reads.bind_pure (pos + 4)
  rw [Reader.get_bind, fits]
  exact read rest

/-! ## Operands of every kind -/

variable {σ : Type} {tokens : TokenAllocator σ} {s s' : σ}

/-- A reference reads back under its token. -/
lemma reads_readReference {α : Type} {resolve : Token → Except Fault α} {token : Token} {a : α}
    (h : resolve token = .ok a) :
    (readReference resolve).Reads (Encoding.uint32 token.value) a := by
  refine (Reader.reads_uint32 token.value).bind_nil ?_
  rw [h]
  exact Reader.Reads.pure

/-- An operand that names no instruction and no reference is written without a request. -/
lemma written_plain {k : OperandKind} {v : Operand} {n : Nat}
    (kind : p.instruction.op.info.kind = k) (operand : p.instruction.operand = v)
    (size : k.size? = some n) (targets : v.targets = []) (references : v.references = [])
    (length : bytes.length = n)
    (reads : ∀ resolver, (readOperand resolver k).Reads bytes (.resolved v)) :
    Written tokens l p s bytes s [] (.resolved v) where
  answers := by
    rw [operand, references]
    rfl
  located := by
    rw [operand]
    exact .resolved targets
  length _ h := by
    simp only [Instruction.encodedSize, kind, size] at h
    cases h
    rw [length]
  reads resolver pos _ _ _ := by
    rw [kind]
    exact reads resolver pos

/-- A value is written as it is read; `make` is what the reader makes of it. -/
lemma written_value {k : OperandKind} {v : Operand} {n : Nat} {out : Bytes} {α : Type} {r : Reader α}
    {make : α → Operand} {a : α}
    (kind : p.instruction.op.info.kind = k) (operand : p.instruction.operand = v)
    (size : k.size? = some n) (targets : v.targets = []) (references : v.references = [])
    (length : out.length = n) (read : r.Reads out a)
    (reader : ∀ resolver, readOperand resolver k = r >>= fun a => pure (.resolved (make a)))
    (made : make a = v) (h : (pure out : StateT σ (Except Fault) Bytes) s = .ok (bytes, s')) :
    ∃ answered raw, Written tokens l p s bytes s' answered raw := by
  obtain ⟨rfl, rfl⟩ := run_pure_eq_ok.1 h
  refine ⟨_, _, written_plain kind operand size targets references length fun resolver => ?_⟩
  rw [reader, ← made]
  exact read.bind_pure

/-- An operand with a reference is written as the token that the reference gets. -/
lemma written_reference {k : OperandKind} {v : Operand} {r : Reference}
    (kind : p.instruction.op.info.kind = k) (operand : p.instruction.operand = v)
    (size : k.size? = some 4) (targets : v.targets = []) (references : v.references = [r])
    (reads : ∀ (resolver : TokenResolver) token, resolver.Resolves token r →
      (readOperand resolver k).Reads (Encoding.uint32 token.value) (.resolved v))
    (h : (tokens.request r >>= fun token => pure (Encoding.uint32 token.value)) s = .ok (bytes, s')) :
    ∃ answered raw, Written tokens l p s bytes s' answered raw := by
  obtain ⟨token, s₁, asked, h⟩ := run_bind_eq_ok.1 h
  obtain ⟨rfl, rfl⟩ := run_pure_eq_ok.1 h
  refine ⟨[(r, token)], .resolved v, ?_, ?_, ?_, ?_⟩
  · rw [operand, references]
    exact TokenAllocator.answers_singleton asked
  · rw [operand]
    exact .resolved targets
  · intro _ h
    simp only [Instruction.encodedSize, kind, size] at h
    cases h
    rw [Encoding.uint32, Reader.length_littleEndian]
  · intro resolver pos inverts _ _
    rw [kind]
    exact reads resolver token (inverts _ (List.mem_singleton.2 rfl)) pos

/-- A branch is written as the displacement to its target; `encode` writes displacements. -/
lemma written_branch {k : OperandKind} {n : Nat} {α : Type} {r : Reader α} {toInt : α → Int}
    {encode : Int → Except Fault Bytes}
    (kind : p.instruction.op.info.kind = k) (operand : p.instruction.operand = .target id)
    (size : k.size? = some n)
    (reads : ∀ {d out}, encode d = .ok out → ∃ v, toInt v = d ∧ r.Reads out v ∧ out.length = n)
    (reader : ∀ resolver, readOperand resolver k = readTarget (toInt <$> r))
    (h : (do
      let d ← (l.displacement p id : StateT σ (Except Fault) Int)
      (encode d : StateT σ (Except Fault) Bytes)) s = .ok (bytes, s')) :
    ∃ answered raw, Written tokens l p s bytes s' answered raw := by
  obtain ⟨d, displaced, rest⟩ := run_lift_bind_eq_ok.1 h
  obtain ⟨written, rfl⟩ := run_lift_eq_ok.1 rest
  obtain ⟨o, start, rfl⟩ := displacement_eq_ok displaced
  obtain ⟨v, value, read, length⟩ := reads written
  refine ⟨[], .target o, ?_, ?_, ?_, ?_⟩
  · rw [operand]
    rfl
  · rw [operand]
    exact .target start
  · intro _ h
    simp only [Instruction.encodedSize, kind, size] at h
    cases h
    rw [length]
  · intro resolver pos _ bounded after
    rw [kind, reader]
    exact readsAt_readTarget (read.map toInt) value (bounded id o start) after

/-- A jump table is written as the number of its entries and their displacements. -/
lemma written_switch {ids : List InstrId} {entries : Bytes}
    (kind : p.instruction.op.info.kind = .switch) (operand : p.instruction.operand = .switch ids)
    (few : ids.length < UInt32.size) (h : EncodedBody.jumpTable l p ids = .ok entries) :
    ∃ os, Written tokens l p s (Encoding.uint32 (UInt32.ofNat ids.length) ++ entries) s []
      (.switch os) := by
  obtain ⟨os, starts, length, reads⟩ := readsAt_readTargets h
  have count : (Encoding.uint32 (UInt32.ofNat ids.length)).length = 4 :=
    Reader.length_littleEndian _ _
  refine ⟨os, ?_, ?_, ?_, ?_⟩
  · rw [operand]
    rfl
  · rw [operand]
    exact .switch starts
  · intro size h
    simp only [Instruction.encodedSize, kind, OperandKind.size?, operand] at h
    cases h
    rw [List.length_append, count, length]
  · intro resolver pos _ bounded after
    rw [kind]
    rw [List.length_append, count] at after
    exact readsAt_readSwitch few length (by omega) (reads bounded)

/-- A value of one byte is not changed by taking it as such. -/
lemma toInt32_toInt8 {v : Int32} (h : -128 ≤ v ∧ v ≤ 127) : v.toInt8.toInt32 = v := by
  rw [Int32.le_iff_toInt_le, Int32.le_iff_toInt_le] at h
  have low : -128 ≤ v.toInt := h.1
  have high : v.toInt ≤ 127 := h.2
  rw [← Int32.toInt_inj, Int8.toInt_toInt32, Int32.toInt_toInt8]
  exact Int.bmod_eq_of_le (by omega) (by omega)

/-- A slot of one byte is not changed by taking it as such. -/
lemma toUInt16_toUInt8 {slot : UInt16} (h : slot ≤ 255) : slot.toUInt8.toUInt16 = slot := by
  rw [UInt16.le_iff_toNat_le] at h
  have small : slot.toNat ≤ 255 := h
  rw [UInt16.toUInt16_toUInt8, ← UInt16.toNat_inj, UInt16.toNat_mod]
  exact Nat.mod_eq_of_lt (Nat.lt_succ_of_le small)

/-- What is written for an operand reads as that operand. -/
lemma written_of_operandBytes (h : EncodedBody.operandBytes tokens l p s = .ok (bytes, s')) :
    ∃ answered raw, Written tokens l p s bytes s' answered raw := by
  unfold EncodedBody.operandBytes at h
  generalize kind : p.instruction.op.info.kind = k at h
  generalize operand : p.instruction.operand = v at h
  dsimp only at h
  split at h
  · next =>
    obtain ⟨rfl, rfl⟩ := run_pure_eq_ok.1 h
    exact ⟨_, _, written_plain kind operand rfl rfl rfl rfl fun _ => Reader.Reads.pure⟩
  · next v =>
    split at h
    · next small =>
      exact written_value kind operand rfl rfl rfl rfl (Reader.reads_int8 v.toInt8) (fun _ => rfl)
        (congrArg Operand.int32 (toInt32_toInt8 small)) h
    · cases h
  · next v =>
    exact written_value kind operand rfl rfl rfl rfl (Reader.reads_int32 v) (fun _ => rfl) rfl h
  · next v =>
    exact written_value kind operand rfl rfl rfl rfl (Reader.reads_int64 v) (fun _ => rfl) rfl h
  · next bits =>
    exact written_value kind operand rfl rfl rfl rfl (Reader.reads_uint32 bits) (fun _ => rfl) rfl h
  · next bits =>
    exact written_value kind operand rfl rfl rfl rfl (Reader.reads_uint64 bits) (fun _ => rfl) rfl h
  · next slot =>
    split at h
    · next small =>
      exact written_value kind operand rfl rfl rfl rfl (Reader.reads_uint8 slot.toUInt8)
        (fun _ => rfl) (congrArg Operand.arg (toUInt16_toUInt8 small)) h
    · cases h
  · next slot =>
    split at h
    · next small =>
      exact written_value kind operand rfl rfl rfl rfl (Reader.reads_uint8 slot.toUInt8)
        (fun _ => rfl) (congrArg Operand.loc (toUInt16_toUInt8 small)) h
    · cases h
  · next slot =>
    exact written_value kind operand rfl rfl rfl rfl (Reader.reads_uint16 slot) (fun _ => rfl) rfl h
  · next slot =>
    exact written_value kind operand rfl rfl rfl rfl (Reader.reads_uint16 slot) (fun _ => rfl) rfl h
  · next id => exact written_branch kind operand rfl reads_displacement8 (fun _ => rfl) h
  · next id => exact written_branch kind operand rfl reads_displacement32 (fun _ => rfl) h
  · next ids =>
    split at h
    · cases h
    · next few =>
      obtain ⟨entries, listed, all⟩ := run_lift_bind_eq_ok.1 h
      obtain ⟨rfl, rfl⟩ := run_pure_eq_ok.1 all
      obtain ⟨os, written⟩ := written_switch kind operand (Nat.lt_of_not_le few) listed
      exact ⟨_, _, written⟩
  · next m =>
    exact written_reference kind operand rfl rfl rfl
      (fun _ _ resolves => (reads_readReference resolves).bind_pure) h
  · next f =>
    exact written_reference kind operand rfl rfl rfl
      (fun _ _ resolves => (reads_readReference resolves).bind_pure) h
  · next t =>
    exact written_reference kind operand rfl rfl rfl
      (fun _ _ resolves => (reads_readReference resolves).bind_pure) h
  · next text =>
    exact written_reference kind operand rfl rfl rfl
      (fun _ _ resolves => (reads_readReference resolves).bind_pure) h
  · cases h

end RawInstruction

end HookWeave

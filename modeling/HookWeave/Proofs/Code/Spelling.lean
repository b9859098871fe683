import HookWeave.Proofs.Bytes.Spells
import HookWeave.Proofs.Code.Settled

/-!
# How code is spelled

Code is spelled as opcodes, each followed by its operand: the value itself, a token or displacements from
the end of the instruction (`RawOperand.Spelled`, `RawInstruction.Spelling`). Whatever code is read from, it
is spelled by these bytes (`spelled_of_readOperand`, `spelling_of_readAll`). What is spelled fits its place
(`fits_of_spelled`).
-/

namespace HookWeave

/-- The operand that holds a reference. -/
def Reference.operand : Reference → Operand
  | .method m => .method m
  | .field f => .field f
  | .type t => .type t
  | .string s => .string s

/-- The kind of the operands that hold such references. -/
def Reference.kind : Reference → OperandKind
  | .method _ => .method
  | .field _ => .field
  | .type _ => .type
  | .string _ => .string

/-- An operand that is a value, in the bytes of the value. -/
inductive OperandKind.Spells : OperandKind → Operand → Bytes → Prop
  | none : Spells .none .none []
  | int8 {v : Int8} : Spells .int8 (.int32 v.toInt32) (Encoding.int8 v)
  | int32 {v : Int32} : Spells .int32 (.int32 v) (Encoding.int32 v)
  | int64 {v : Int64} : Spells .int64 (.int64 v) (Encoding.int64 v)
  | float32 {bits : UInt32} : Spells .float32 (.float32 bits) (Encoding.uint32 bits)
  | float64 {bits : UInt64} : Spells .float64 (.float64 bits) (Encoding.uint64 bits)
  | arg8 {b : UInt8} : Spells .arg8 (.arg b.toUInt16) [b]
  | arg16 {slot : UInt16} : Spells .arg16 (.arg slot) (Encoding.uint16 slot)
  | loc8 {b : UInt8} : Spells .loc8 (.loc b.toUInt16) [b]
  | loc16 {slot : UInt16} : Spells .loc16 (.loc slot) (Encoding.uint16 slot)

/-- The operand of an instruction that ends at `stop`, with the tokens and the bytes in which it is
written. -/
inductive RawOperand.Spelled (stop : Nat) : OperandKind → RawOperand → List Token → Bytes → Prop
  | value {k : OperandKind} {v : Operand} {bytes : Bytes} :
    k.Spells v bytes → Spelled stop k (.resolved v) [] bytes
  | reference {r : Reference} {token : Token} :
    Spelled stop r.kind (.resolved r.operand) [token] (Encoding.uint32 token.value)
  | near {o : Nat} {d : Int8} :
    d.toInt = (o : Int) - stop → Spelled stop .branch8 (.target o) [] (Encoding.int8 d)
  | far {o : Nat} {d : Int32} :
    d.toInt = (o : Int) - stop → Spelled stop .branch32 (.target o) [] (Encoding.int32 d)
  | switch {os : List Nat} {ds : List Int32} {count : UInt32} :
    os.length = count.toNat →
    List.Forall₂ (fun (d : Int32) (o : Nat) => d.toInt = (o : Int) - stop) ds os →
    Spelled stop .switch (.switch os) [] (Encoding.uint32 count ++ ds.flatMap Encoding.int32)

/-- The references that an operand holds. -/
def RawOperand.references : RawOperand → List Reference
  | .resolved v => v.references
  | _ => []

/-! ## Opcodes -/

/-- The opcode of a single byte has this byte. -/
lemma OpCode.byte_of_ofByte? {b : UInt8} {op : OpCode} (h : ofByte? b = some op) :
    op.info.extended = false ∧ op.info.byte = b := by
  rw [ofByte?, singleTable, getElem?_byByte] at h
  have found := List.find?_some h
  obtain ⟨single, byte⟩ := Bool.and_eq_true_iff.1 found
  exact ⟨beq_iff_eq.1 single, UInt8.toNat_inj.1 (beq_iff_eq.1 byte)⟩

/-- The opcode of a byte after the escape byte has this byte. -/
lemma OpCode.byte_of_ofExtendedByte? {b : UInt8} {op : OpCode} (h : ofExtendedByte? b = some op) :
    op.info.extended = true ∧ op.info.byte = b := by
  rw [ofExtendedByte?, extendedTable, getElem?_byByte] at h
  have found := List.find?_some h
  obtain ⟨extended, byte⟩ := Bool.and_eq_true_iff.1 found
  exact ⟨beq_iff_eq.1 extended, UInt8.toNat_inj.1 (beq_iff_eq.1 byte)⟩

namespace RawInstruction

variable {resolver : TokenResolver} {op : OpCode} {raw : RawOperand} {c c' : Cursor}
  {k : OperandKind} {ts : List Token} {bytes : Bytes} {stop n : Nat}

/-- An opcode is read from its own bytes. -/
lemma spells_readOpCode : readOpCode.Spells OpCode.bytes := by
  intro c op c' h
  obtain ⟨first, c₁, read, h⟩ := edit_bind_eq_ok.1 h
  have took := Reader.spells_uint8 c first c₁ read
  by_cases escape : first = escapeByte
  · rw [if_pos escape] at h
    obtain ⟨second, c₂, read', h⟩ := edit_bind_eq_ok.1 h
    have took' := Reader.spells_uint8 c₁ second c₂ read'
    cases found : OpCode.ofExtendedByte? second with
    | some op' =>
      rw [found] at h
      cases h
      obtain ⟨extended, rfl⟩ := OpCode.byte_of_ofExtendedByte? found
      rw [OpCode.bytes, if_pos extended, ← escape]
      exact took.trans took'
    | none =>
      rw [found] at h
      cases h
  · rw [if_neg escape] at h
    cases found : OpCode.ofByte? first with
    | some op' =>
      rw [found] at h
      cases h
      obtain ⟨single, rfl⟩ := OpCode.byte_of_ofByte? found
      rw [OpCode.bytes, if_neg (by rw [single]; decide)]
      exact took
    | none =>
      rw [found] at h
      cases h

/-! ## Operands -/

/-- What was read as an operand is spelled by the bytes that were taken, and the tokens in them were
resolved to its references. -/
structure Read (resolver : TokenResolver) (k : OperandKind) (c : Cursor) (raw : RawOperand) (c' : Cursor)
    (ts : List Token) (bytes : Bytes) : Prop where
  took : c.Took bytes c'
  spelled : raw.Spelled c'.pos k ts bytes
  resolves : List.Forall₂ resolver.Resolves ts raw.references

/-- A value holds no reference. -/
lemma references_of_spells {v : Operand} (h : k.Spells v bytes) : v.references = [] := by
  cases h <;> rfl

lemma read_value {α : Type} {r : Reader α} {write : α → Bytes} {g : α → Operand}
    (h : (r >>= fun a => pure (.resolved (g a)) : Reader RawOperand) c = .ok raw c')
    (spells : r.Spells write) (held : ∀ a, k.Spells (g a) (write a)) :
    ∃ ts bytes, Read resolver k c raw c' ts bytes := by
  obtain ⟨a, c₁, read, h⟩ := edit_bind_eq_ok.1 h
  cases h
  refine ⟨[], write a, spells c a c' read, .value (held a), ?_⟩
  rw [RawOperand.references, references_of_spells (held a)]
  exact .nil

lemma read_reference {α : Type} {resolve : Token → Except Fault α} (ref : α → Reference)
    (h : (readReference resolve >>= fun a => pure (.resolved (ref a).operand) : Reader RawOperand) c
      = .ok raw c')
    (kind : ∀ a, (ref a).kind = k)
    (resolves : ∀ token a, resolve token = .ok a → resolver.Resolves token (ref a)) :
    ∃ ts bytes, Read resolver k c raw c' ts bytes := by
  obtain ⟨a, c₁, read, h⟩ := edit_bind_eq_ok.1 h
  cases h
  obtain ⟨value, c₂, word, read⟩ := edit_bind_eq_ok.1 read
  cases found : resolve ⟨value⟩ with
  | ok a' =>
    rw [found] at read
    cases read
    rw [← kind a]
    refine ⟨[⟨value⟩], _, Reader.spells_uint32 c value c' word, .reference, ?_⟩
    have held : (RawOperand.resolved (ref a).operand).references = [ref a] := by
      rw [RawOperand.references]
      cases ref a <;> rfl
    rw [held]
    exact .cons (resolves _ a found) .nil
  | error e =>
    rw [found] at read
    cases read

/-- The offset that a displacement leads to lies as far from its base as it says. -/
lemma displacement_of_offsetFrom {base o : Nat} {d : Int} (h : offsetFrom base d = .ok o) :
    d = (o : Int) - base := by
  unfold offsetFrom at h
  dsimp only at h
  split at h
  · next range =>
    cases h
    omega
  · cases h

/-- A target is read from a displacement that leads to it from behind. -/
lemma target_of_readTarget {α : Type} {r : Reader α} {write : α → Bytes} {toInt : α → Int}
    (h : readTarget (toInt <$> r) c = .ok raw c') (spells : r.Spells write) :
    ∃ o d, raw = .target o ∧ c.Took (write d) c' ∧ toInt d = (o : Int) - c'.pos := by
  obtain ⟨i, c₁, read, h⟩ := edit_bind_eq_ok.1 h
  obtain ⟨pos, c₂, placed, h⟩ := edit_bind_eq_ok.1 h
  cases placed
  have read : EStateM.map toInt r c = .ok i c₁ := read
  rw [EStateM.map] at read
  cases first : r c with
  | ok d c₂ =>
    rw [first] at read
    cases read
    cases found : offsetFrom c₁.pos (toInt d) with
    | ok o =>
      rw [found] at h
      cases h
      exact ⟨o, d, rfl, spells c d c' first, displacement_of_offsetFrom found⟩
    | error e =>
      rw [found] at h
      cases h
  | error e c₂ =>
    rw [first] at read
    cases read

lemma spelled_of_readTargets {os : List Nat} (h : readTargets stop n c = .ok os c') :
    ∃ ds : List Int32, os.length = n ∧ c.Took (ds.flatMap Encoding.int32) c'
      ∧ List.Forall₂ (fun (d : Int32) (o : Nat) => d.toInt = (o : Int) - stop) ds os := by
  induction n generalizing c os with
  | zero =>
    cases h
    exact ⟨[], rfl, .nil _, .nil⟩
  | succ n ih =>
    obtain ⟨d, c₁, read, h⟩ := edit_bind_eq_ok.1 h
    have took := Reader.spells_int32 c d c₁ read
    cases found : offsetFrom stop d.toInt with
    | ok o =>
      rw [found] at h
      obtain ⟨os, c₂, others, h⟩ := edit_bind_eq_ok.1 h
      cases h
      obtain ⟨ds, length, took', lead⟩ := ih others
      refine ⟨d :: ds, congrArg (· + 1) length, ?_, .cons (displacement_of_offsetFrom found) lead⟩
      exact took.trans took'
    | error e =>
      rw [found] at h
      cases h

/-- Displacements of a jump table take four bytes each. -/
lemma length_displacements (ds : List Int32) : (ds.flatMap Encoding.int32).length = 4 * ds.length := by
  induction ds with
  | nil => rfl
  | cons d ds ih =>
    have four : (Encoding.int32 d).length = 4 := Reader.length_littleEndian 4 _
    rw [List.flatMap_cons, List.length_append, four, ih, List.length_cons]
    omega

lemma read_switch (h : readSwitch c = .ok raw c') :
    ∃ ts bytes, Read resolver .switch c raw c' ts bytes := by
  obtain ⟨count, c₁, read, h⟩ := edit_bind_eq_ok.1 h
  have took := Reader.spells_uint32 c count c₁ read
  obtain ⟨here, c₂, placed, h⟩ := edit_bind_eq_ok.1 h
  cases placed
  cases found : c₁.endAfter (4 * count.toNat) with
  | ok stop =>
    rw [found] at h
    obtain ⟨os, c₃, targets, h⟩ := edit_bind_eq_ok.1 h
    cases h
    obtain ⟨ds, length, took', lead⟩ := spelled_of_readTargets targets
    -- The table ends where its size says, from where its displacements count.
    have stops : stop = c'.pos := by
      unfold Cursor.endAfter at found
      split at found
      · cases found
        rw [took'.pos, length_displacements, lead.length_eq, length]
      · cases found
    rw [stops] at lead
    exact ⟨[], _, took.trans took', .switch length lead, .nil⟩
  | error e =>
    rw [found] at h
    cases h

/-- What was read as an operand is spelled by the bytes that it was read from. -/
lemma spelled_of_readOperand (h : readOperand resolver k c = .ok raw c') :
    ∃ ts bytes, Read resolver k c raw c' ts bytes := by
  cases k with
  | none =>
    cases h
    exact ⟨[], [], .nil c, .value .none, .nil⟩
  | int8 => exact read_value h Reader.spells_int8 fun _ => .int8
  | int32 => exact read_value h Reader.spells_int32 fun _ => .int32
  | int64 => exact read_value h Reader.spells_int64 fun _ => .int64
  | float32 => exact read_value h Reader.spells_uint32 fun _ => .float32
  | float64 => exact read_value h Reader.spells_uint64 fun _ => .float64
  | arg8 => exact read_value h Reader.spells_uint8 fun _ => .arg8
  | arg16 => exact read_value h Reader.spells_uint16 fun _ => .arg16
  | loc8 => exact read_value h Reader.spells_uint8 fun _ => .loc8
  | loc16 => exact read_value h Reader.spells_uint16 fun _ => .loc16
  | branch8 =>
    obtain ⟨o, d, rfl, took, leads⟩ := target_of_readTarget h Reader.spells_int8
    exact ⟨[], _, took, .near leads, .nil⟩
  | branch32 =>
    obtain ⟨o, d, rfl, took, leads⟩ := target_of_readTarget h Reader.spells_int32
    exact ⟨[], _, took, .far leads, .nil⟩
  | switch => exact read_switch h
  | method => exact read_reference .method h (fun _ => rfl) fun _ _ h => h
  | field => exact read_reference .field h (fun _ => rfl) fun _ _ h => h
  | type => exact read_reference .type h (fun _ => rfl) fun _ _ h => h
  | string => exact read_reference .string h (fun _ => rfl) fun _ _ h => h

/-! ## What is spelled -/

/-- The number of bytes that an operand of a kind takes. -/
def operandSize (k : OperandKind) : RawOperand → Nat
  | .switch os => 4 + 4 * os.length
  | _ => k.size?.getD 0

/-- A slot of one byte fits one byte. -/
lemma toUInt16_le (b : UInt8) : b.toUInt16 ≤ 255 := by
  rw [UInt16.le_iff_toNat_le, UInt8.toNat_toUInt16]
  exact Nat.le_of_lt_succ b.toNat_lt

/-- A value of one byte fits one byte. -/
lemma toInt32_range (v : Int8) : -128 ≤ v.toInt32 ∧ v.toInt32 ≤ 127 := by
  rw [Int32.le_iff_toInt_le, Int32.le_iff_toInt_le, Int8.toInt_toInt32]
  exact ⟨v.le_toInt, Int.le_of_lt_add_one v.toInt_lt⟩

/-- A value that is spelled is one that the kind can hold. -/
lemma holds_of_spells {v : Operand} (h : k.Spells v bytes) : k.Holds v := by
  cases h with
  | none => exact .none
  | int8 => exact .int8 (toInt32_range _)
  | int32 => exact .int32
  | int64 => exact .int64
  | float32 => exact .float32
  | float64 => exact .float64
  | arg8 => exact .arg8 (toUInt16_le _)
  | arg16 => exact .arg16
  | loc8 => exact .loc8 (toUInt16_le _)
  | loc16 => exact .loc16

/-- A displacement of one byte fits one byte. -/
lemma fitsByte_toInt (d : Int8) : Layout.fitsByte d.toInt = true := by
  rw [Layout.fitsByte, Bool.and_eq_true]
  exact ⟨decide_eq_true d.le_toInt, decide_eq_true (Int.le_of_lt_add_one d.toInt_lt)⟩

/-- An operand that is spelled fits. -/
lemma fits_of_spelled (h : raw.Spelled stop k ts bytes) : raw.Fits stop k := by
  cases h with
  | value spells => exact .resolved (holds_of_spells spells)
  | @reference r token => cases r <;> exact .resolved (by constructor)
  | @near o d leads =>
    refine .near ?_
    rw [← leads]
    exact fitsByte_toInt d
  | far => exact .far
  | switch => exact .switch

/-- An operand takes the bytes of its size. -/
lemma length_of_spelled (h : raw.Spelled stop k ts bytes) : bytes.length = operandSize k raw := by
  cases h with
  | value spells => cases spells <;> rfl
  | @reference r token => cases r <;> exact Reader.length_littleEndian 4 _
  | near => rfl
  | far => exact Reader.length_littleEndian 4 _
  | switch length lead =>
    have four : ∀ v, (Encoding.uint32 v).length = 4 := fun v => Reader.length_littleEndian 4 _
    rw [List.length_append, four, length_displacements, lead.length_eq, operandSize]

/-! ## Instructions one after another -/

/-- The number of bytes of an instruction. -/
def size (i : RawInstruction) : Nat :=
  i.op.size + operandSize i.op.info.kind i.operand

/-- An instruction takes the bytes of its size. -/
lemma length_of_spelled_operand {i : RawInstruction}
    (h : i.operand.Spelled stop i.op.info.kind ts bytes) : (i.op.bytes ++ bytes).length = i.size := by
  rw [List.length_append, i.op.length_bytes, length_of_spelled h, size]

/-- Instructions one after another from an offset on, with the tokens and the bytes in which they are
written; the tokens are resolved to what the operands refer to. -/
inductive Spelling (resolver : TokenResolver) : Nat → List RawInstruction → List Token → Bytes → Prop
  | nil {n : Nat} : Spelling resolver n [] [] []
  | cons {i : RawInstruction} {is : List RawInstruction} {us ts : List Token} {operand rest : Bytes} :
    i.operand.Spelled (i.offset + i.size) i.op.info.kind us operand →
    List.Forall₂ resolver.Resolves us i.operand.references →
    Spelling resolver (i.offset + i.size) is ts rest →
    Spelling resolver i.offset (i :: is) (us ++ ts) (i.op.bytes ++ (operand ++ rest))

/-- Instructions are read to the end of the code, and are spelled by all of it. -/
lemma spelling_of_readAll {is : List RawInstruction} (h : readAll resolver n c = .ok is c')
    (enough : c.rest.length ≤ n) : ∃ ts, Spelling resolver c.pos is ts c.rest := by
  induction n generalizing c is with
  | zero =>
    have none := List.length_eq_zero_iff.1 (Nat.le_zero.1 enough)
    cases h
    rw [none]
    exact ⟨[], .nil⟩
  | succ n ih =>
    obtain ⟨here, c₁, got, h⟩ := edit_bind_eq_ok.1 h
    cases got
    cases more : c.hasMore with
    | true =>
      rw [more, if_pos rfl] at h
      obtain ⟨i, c₂, read, h⟩ := edit_bind_eq_ok.1 h
      obtain ⟨others, c₃, rest, h⟩ := edit_bind_eq_ok.1 h
      cases h
      obtain ⟨offset, c₄, placed, read⟩ := edit_bind_eq_ok.1 read
      cases placed
      obtain ⟨op, c₅, first, read⟩ := edit_bind_eq_ok.1 read
      obtain ⟨operand, c₆, second, read⟩ := edit_bind_eq_ok.1 read
      cases read
      have opcode := spells_readOpCode c op c₅ first
      obtain ⟨us, bytes, took, spelled, resolves⟩ := spelled_of_readOperand second
      have both := opcode.trans took
      have length := both.length_rest
      have size := length_of_spelled_operand (i := ⟨c.pos, op, operand⟩) spelled
      have op_pos := op.size_pos
      rw [List.length_append, op.length_bytes] at length
      obtain ⟨ts, spelling⟩ := ih rest (by omega)
      have stops := both.pos
      rw [size] at stops
      rw [stops] at spelled spelling
      rw [both.rest, List.append_assoc]
      exact ⟨us ++ ts, .cons (i := ⟨c.pos, op, operand⟩) spelled resolves spelling⟩
    | false =>
      rw [more, if_neg (by decide)] at h
      have none : c.rest = [] := by
        rw [Cursor.hasMore, Bool.not_eq_false'] at more
        exact List.isEmpty_iff.1 more
      cases h
      rw [none]
      exact ⟨[], .nil⟩

end RawInstruction

end HookWeave

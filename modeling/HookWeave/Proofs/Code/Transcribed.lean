import HookWeave.Proofs.Code.Decoded

/-!
# Code written as it was read

Code that was decoded is encoded byte for byte as it was, if its references get the tokens that stood for
them (`DecodedBody.transcribes_of_ofBytes`). The tokens of code are found without knowing what they name
(`RawInstruction.tokensIn`), and encoding requests a token for what each of them was resolved to, in their
order, and no other (`TokenAllocator.Asks`). The offsets at which decoded instructions are found are the
sizes of the code in front of them (`DecodedBody.SpelledBy.instructionAt_eq_some`).
-/

namespace HookWeave

/-! ## The tokens in code -/

namespace RawInstruction

/-- Reads past an operand and gives the tokens in it. -/
def readTokens : OperandKind → Reader (List Token)
  | .method | .field | .type | .string => do
    let value ← Reader.uint32
    return [⟨value⟩]
  | .switch => do
    let count ← Reader.uint32
    let _ ← Reader.take (4 * count.toNat)
    return []
  | k => do
    let _ ← Reader.take (k.size?.getD 0)
    return []

/-- Reads past instructions to the end of the code, but at most `n`, and gives the tokens in them. -/
def readAllTokens : (n : Nat) → Reader (List Token)
  | 0 => return []
  | n + 1 => do
    if (← get).hasMore then
      let op ← readOpCode
      let tokens ← readTokens op.info.kind
      let others ← readAllTokens n
      return tokens ++ others
    else
      return []

/-- The tokens in code, in their order. -/
def tokensIn (code : Bytes) : List Token :=
  match (readAllTokens code.length).value code with
  | .ok tokens => tokens
  | .error _ => []

variable {resolver : TokenResolver} {raw : RawOperand} {k : OperandKind} {ts : List Token}
  {bytes operand : Bytes} {raws : List RawInstruction} {n m stop : Nat}

/-- The tokens of an operand are found in its bytes. -/
lemma reads_readTokens (h : raw.Spelled stop k ts bytes) : (readTokens k).Reads bytes ts := by
  have skipped {n : Nat} (length : bytes.length = n) :
      (Reader.take n >>= fun _ => pure [] : Reader (List Token)).Reads bytes [] := by
    rw [← length]
    exact (Reader.reads_take bytes).bind_nil .pure
  cases h with
  | value spells => cases spells <;> exact skipped rfl
  | @reference r token => cases r <;> exact (Reader.reads_uint32 token.value).bind_pure
  | near | far => exact skipped rfl
  | @switch os ds count length lead =>
    refine (Reader.reads_uint32 count).bind ?_
    have size : (ds.flatMap Encoding.int32).length = 4 * count.toNat := by
      rw [length_displacements, lead.length_eq, length]
    rw [← size]
    exact (Reader.reads_take _).bind_nil .pure

/-- The tokens of code are found in its bytes. -/
lemma Spelling.readsAll_tokens (h : Spelling resolver n raws ts bytes) (enough : bytes.length ≤ m) :
    (readAllTokens m).ReadsAll n bytes ts := by
  induction h generalizing m with
  | nil => cases m <;> rfl
  | @cons i is us ts operand rest spelled _ _ ih =>
    have op_pos := i.op.size_pos
    have size := length_of_spelled_operand spelled
    rw [List.length_append, List.length_append, i.op.length_bytes] at enough
    obtain ⟨m, rfl⟩ : ∃ k, m = k + 1 := ⟨m - 1, by omega⟩
    have others := ih (m := m) (by omega)
    have more : Cursor.hasMore ⟨i.offset, i.op.bytes ++ (operand ++ rest)⟩ = true :=
      Reader.hasMore_append i.op.bytes_ne_nil
    show (if Cursor.hasMore ⟨i.offset, i.op.bytes ++ (operand ++ rest)⟩ = true then _ else _ :
      Reader _) _ = _
    rw [if_pos more]
    refine (OpCode.reads_readOpCode i.op i.offset).bind_all ?_
    refine (reads_readTokens spelled _).bind_all ?_
    rw [Nat.add_assoc, ← List.length_append, size, Reader.ReadsAll, Reader.bind_apply, others]
    rfl

/-- The tokens in code are those in which it is spelled. -/
lemma Spelling.tokensIn_eq (h : Spelling resolver 0 raws ts bytes) : tokensIn bytes = ts := by
  rw [tokensIn, (h.readsAll_tokens (Nat.le_refl _)).value]

end RawInstruction

/-! ## Requests -/

namespace TokenAllocator

variable {σ α β : Type} {tokens : TokenAllocator σ} {s s' : σ} {x : StateT σ (Except Fault) α}
  {g : α → StateT σ (Except Fault) β} {rs rs' : List Reference} {write : List Token → α}
  {write' : α → List Token → β}

/-- The computation requests tokens for the references, in their order, and for no others, and makes what
it gives of these tokens. -/
def Asks (tokens : TokenAllocator σ) (x : StateT σ (Except Fault) α) (rs : List Reference)
    (write : List Token → α) : Prop :=
  x = do
    let answered ← tokens.answers rs
    return write (answered.map Prod.snd)

lemma Asks.pure (a : α) : tokens.Asks (Pure.pure a) [] fun _ => a := by
  rw [Asks, answers, pure_bind]

lemma Asks.of_eq {y : StateT σ (Except Fault) α} (h : x = y) (hy : tokens.Asks y rs write) :
    tokens.Asks x rs write :=
  h ▸ hy

/-- A token is requested, and written. -/
lemma Asks.request (r : Reference) :
    tokens.Asks (tokens.request r >>= fun token => Pure.pure (Encoding.uint32 token.value)) [r]
      fun given => given.flatMap fun token => Encoding.uint32 token.value := by
  simp only [Asks, answers, bind_assoc, pure_bind, List.map_cons, List.map_nil, List.flatMap_singleton]

/-- Computations one after another make the requests of both. -/
lemma Asks.bind (hx : tokens.Asks x rs write) (hg : ∀ a, tokens.Asks (g a) rs' (write' a)) :
    tokens.Asks (x >>= g) (rs ++ rs') fun given =>
      write' (write (given.take rs.length)) (given.drop rs.length) := by
  rw [Asks, hx, answers_append_eq]
  simp only [bind_assoc, pure_bind]
  funext s
  cases first : tokens.answers rs s with
  | error e => rw [run_bind_of_error first, run_bind_of_error first]
  | ok given =>
    obtain ⟨given, s₁⟩ := given
    have length := length_answers first
    rw [run_bind_of_ok first, run_bind_of_ok first, hg]
    simp only [List.map_append, List.take_left' length, List.drop_left' length]

/-- What is computed from the result of requests is made of the same tokens. -/
lemma Asks.map (f : α → β) (hx : tokens.Asks x rs write) :
    tokens.Asks (x >>= fun a => Pure.pure (f a)) rs fun given => f (write given) := by
  rw [Asks, hx]
  simp only [bind_assoc, pure_bind]

end TokenAllocator

/-! ## Operands as they were read -/

namespace RawInstruction

variable {σ : Type} {layout : Layout} {p : Placed} {raw : RawOperand} {ts : List Token}
  {bytes : Bytes} {id : InstrId} {o : Nat}

/-- What is written for an operand that is spelled, from the tokens given: the bytes in which it is spelled
if they are those in it. -/
def Rewrites (layout : Layout) (p : Placed) (ts : List Token) (bytes : Bytes) : Prop :=
  ∃ write : List Token → Bytes, write ts = bytes ∧ ∀ {σ : Type} (tokens : TokenAllocator σ),
    tokens.Asks (EncodedBody.operandBytes tokens layout p) p.instruction.operand.references write

lemma displacement_of_startOf (start : layout.startOf id = .ok o) :
    layout.displacement p id = .ok ((o : Int) - p.stop) :=
  bind_eq_ok.2 ⟨o, start, rfl⟩

/-- A displacement of one byte is written as it was read. -/
lemma displacement8_toInt (d : Int8) : EncodedBody.displacement8 d.toInt = .ok (Encoding.int8 d) := by
  rw [EncodedBody.displacement8, if_pos (fitsByte_toInt d), Int8.ofInt_toInt]

/-- A displacement of four bytes is written as it was read. -/
lemma displacement32_toInt (cause : Int → Malformation) (d : Int32) :
    EncodedBody.displacement32 cause d.toInt = .ok (Encoding.int32 d) := by
  rw [EncodedBody.displacement32, if_pos ⟨d.le_toInt, d.toInt_lt⟩, Int32.ofInt_toInt]

/-- A branch is written as its displacement, without a request. -/
lemma asks_branch {tokens : TokenAllocator σ} {write : Int → Except Fault Bytes}
    (start : layout.startOf id = .ok o) (written : write ((o : Int) - p.stop) = .ok bytes) :
    tokens.Asks (do
      let d ← layout.displacement p id
      write d) [] fun _ => bytes := by
  rw [displacement_of_startOf start]
  show tokens.Asks (liftM (write ((o : Int) - p.stop))) [] _
  rw [written]
  exact .pure bytes

/-- A jump table is written as it was read. -/
lemma jumpTable_of_forall₂ {ids : List InstrId} {os : List Nat} {ds : List Int32}
    (starts : List.Forall₂ (fun id o => layout.startOf id = .ok o) ids os)
    (lead : List.Forall₂ (fun (d : Int32) (o : Nat) => d.toInt = (o : Int) - p.stop) ds os) :
    EncodedBody.jumpTable layout p ids = .ok (ds.flatMap Encoding.int32) := by
  induction starts generalizing ds with
  | nil =>
    cases lead
    rfl
  | cons start _ ih =>
    cases lead with
    | @cons d _ ds _ leads others =>
      have entry := displacement32_toInt .jumpTableDisplacement d
      rw [leads] at entry
      exact bind_eq_ok.2 ⟨_, displacement_of_startOf start, bind_eq_ok.2 ⟨_, entry,
        bind_eq_ok.2 ⟨_, ih others, rfl⟩⟩⟩

/-- An operand that is spelled is written as it was read. -/
lemma rewrites_of_spelled (spelled : raw.Spelled p.stop p.instruction.op.info.kind ts bytes)
    (located : layout.Located p.instruction.operand raw) : Rewrites layout p ts bytes := by
  unfold Rewrites EncodedBody.operandBytes
  dsimp only
  generalize p.instruction.op.info.kind = k at spelled ⊢
  generalize p.instruction.operand = v at located ⊢
  cases spelled with
  | value spells =>
    cases located with
    | resolved =>
      cases spells with
      | none | int32 | int64 | float32 | float64 | arg16 | loc16 =>
        exact ⟨fun _ => _, rfl, fun tokens => .pure _⟩
      | @int8 v =>
        refine ⟨fun _ => _, rfl, fun tokens => .of_eq (if_pos (toInt32_range v)) ?_⟩
        rw [Int8.toInt8_toInt32]
        exact .pure _
      | @arg8 b | @loc8 b =>
        refine ⟨fun _ => _, rfl, fun tokens => .of_eq (if_pos (toUInt16_le b)) ?_⟩
        rw [UInt8.toUInt8_toUInt16]
        exact .pure _
  | @reference r token =>
    cases located with
    | resolved =>
      refine ⟨fun given => given.flatMap fun token => Encoding.uint32 token.value, ?_, fun tokens => ?_⟩
      · exact List.flatMap_singleton _ _
      · cases r with
        | method m => exact .request (.method m)
        | field f => exact .request (.field f)
        | type t => exact .request (.type t)
        | string text => exact .request (.string text)
  | @near o d leads =>
    cases located with
    | target start =>
      have written := displacement8_toInt d
      rw [leads] at written
      exact ⟨fun _ => _, rfl, fun tokens => asks_branch start written⟩
  | @far o d leads =>
    cases located with
    | target start =>
      have written := displacement32_toInt .displacement d
      rw [leads] at written
      exact ⟨fun _ => _, rfl, fun tokens => asks_branch start written⟩
  | @switch os ds count length lead =>
    cases located with
    | @switch ids os starts =>
      have few : ¬ UInt32.size ≤ ids.length := by
        rw [starts.length_eq, length]
        exact Nat.not_le_of_lt count.toNat_lt
      refine ⟨fun _ => _, rfl, fun tokens => .of_eq (if_neg few) ?_⟩
      rw [jumpTable_of_forall₂ starts lead, starts.length_eq, length, UInt32.ofNat_toNat]
      exact .pure _

/-- Instructions one after another are written as they were read. -/
lemma Spelling.rewrites {resolver : TokenResolver} {find : Nat → Option Nat} {ps : List Placed}
    {raws : List RawInstruction} {n : Nat} (spelling : Spelling resolver n raws ts bytes)
    (pieces : List.Forall₂ (PlacedAs find) ps raws)
    (located : List.Forall₂ (fun p i => layout.Located p.instruction.operand i.operand) ps raws) :
    ∃ write : List Token → Bytes, write ts = bytes ∧ ∀ {σ : Type} (tokens : TokenAllocator σ),
      tokens.Asks (EncodedBody.emit tokens layout ps)
        (ps.flatMap (·.instruction.operand.references)) write := by
  induction spelling generalizing ps with
  | nil =>
    cases pieces
    exact ⟨fun _ => [], rfl, fun tokens => .pure []⟩
  | @cons i is us ts operand rest spelled resolves _ ih =>
    cases pieces with
    | @cons p _ ps _ piece pieces =>
      obtain ⟨here, others⟩ := List.forall₂_cons.1 located
      obtain ⟨write, same, asks⟩ := ih pieces others
      have stops : p.stop = i.offset + i.size := by rw [Placed.stop, piece.start, piece.size]
      rw [← stops, ← piece.op] at spelled
      obtain ⟨writeFirst, sameFirst, asksFirst⟩ := rewrites_of_spelled spelled here
      have length : us.length = p.instruction.operand.references.length := by
        rw [references_of_resolveOperand piece.operand, resolves.length_eq]
      -- The tokens of this instruction come first among those that are given.
      refine ⟨fun given => p.instruction.op.bytes
        ++ (writeFirst (given.take us.length) ++ write (given.drop us.length)), ?_, fun tokens => ?_⟩
      · dsimp only
        rw [List.take_left, List.drop_left, sameFirst, same, piece.op]
      · rw [List.flatMap_cons, length]
        exact (asksFirst tokens).bind fun operand => (asks tokens).map _

end RawInstruction

/-! ## Sizes of code -/

/-- The number of bytes that instructions take, one after another. -/
def Instruction.totalSize : List Instruction → Except Fault Nat
  | [] => .ok 0
  | i :: is => do
    let size ← i.encodedSize
    let rest ← totalSize is
    return size + rest

/-- A piece starts behind the instructions in front of it. -/
lemma Consecutive.totalSize {ps : List Placed} {p : Placed} {n k : Nat} (h : Consecutive n ps)
    (hk : ps[k]? = some p) :
    ∃ m, Instruction.totalSize ((ps.map (·.instruction)).take k) = .ok m ∧ p.start = n + m := by
  induction h generalizing k with
  | nil => cases hk
  | @cons q qs sized _ ih =>
    cases k with
    | zero =>
      cases hk
      exact ⟨0, rfl, rfl⟩
    | succ k =>
      obtain ⟨m, total, start⟩ := ih hk
      refine ⟨q.size + m, ?_, by rw [start, Placed.stop, Nat.add_assoc]⟩
      exact bind_eq_ok.2 ⟨q.size, sized, bind_eq_ok.2 ⟨m, total, rfl⟩⟩

namespace DecodedBody

/-- Decoded code says all that its bytes do. -/
structure Transcribes (d : DecodedBody) (resolver : TokenResolver) (bytes : Bytes) : Prop where
  /-- The references are what the tokens are resolved to, in their order. -/
  resolves : List.Forall₂ resolver.Resolves (RawInstruction.tokensIn bytes) d.instructions.references
  /-- Whichever allocator is asked, it is asked for the references, and what is written for their tokens
  is the code itself if these are the tokens in it. -/
  written : ∃ write : List Token → EncodedBody,
    (∀ {σ : Type} (tokens : TokenAllocator σ),
      tokens.Asks (EncodedBody.ofList d.instructions tokens) d.instructions.references write)
    ∧ (write (RawInstruction.tokensIn bytes)).code = bytes
  identities : d.instructions.items.map (·.id) = (List.range d.instructions.size).map InstrId.mk
  targets : ∀ i ∈ d.instructions.items, ∀ id ∈ i.targets, id ∈ d.instructions.items.map (·.id)
  found : ∀ o k, d.instructionAt o = .ok (some ⟨k⟩)
    ↔ k < d.instructions.size ∧ Instruction.totalSize (d.instructions.items.take k) = .ok o
  stop : ∀ o, d.instructionAt o = .ok none ↔ o = bytes.length
  refused : ∀ o, o ≠ bytes.length →
    (∀ k < d.instructions.size, Instruction.totalSize (d.instructions.items.take k) ≠ .ok o) →
    d.instructionAt o = .error (.malformed (.offsetBoundary o))

namespace SpelledBy

variable {d : DecodedBody} {resolver : TokenResolver} {ps : List Placed} {raws : List RawInstruction}
  {ts : List Token} {bytes : Bytes} {o k : Nat}

/-! ## Code as a whole -/

/-- Decoded code is written as it was read. -/
lemma written (h : d.SpelledBy resolver ps raws ts bytes) :
    ∃ write : List Token → EncodedBody,
      (∀ {σ : Type} (tokens : TokenAllocator σ),
        tokens.Asks (EncodedBody.ofList d.instructions tokens) d.instructions.references write)
      ∧ (write ts).code = bytes := by
  obtain ⟨write, same, asks⟩ := h.spelling.rewrites h.pieces h.located
  refine ⟨fun given => ⟨write given, ps.map fun p => (p.instruction.id, p.start)⟩, fun tokens => ?_, same⟩
  have references : ps.flatMap (·.instruction.operand.references) = d.instructions.references := by
    rw [InstructionList.references, ← h.reaching.placed, List.flatMap_map]
  rw [← references, EncodedBody.ofList, h.reaching.validateTargets, h.reaching.layout]
  exact (asks tokens).map (EncodedBody.mk · _)

lemma identities (h : d.SpelledBy resolver ps raws ts bytes) :
    d.instructions.items.map (·.id) = (List.range d.instructions.size).map InstrId.mk := by
  obtain ⟨code, numbered⟩ := h.numbered
  rw [numbered, List.range_eq_range']
  exact InstructionList.map_id_number 0 code

lemma targets (h : d.SpelledBy resolver ps raws ts bytes) :
    ∀ i ∈ d.instructions.items, ∀ id ∈ i.targets, id ∈ d.instructions.items.map (·.id) := by
  intro i hi id named
  rw [← h.reaching.placed] at hi
  obtain ⟨p, hp, rfl⟩ := List.mem_map.1 hi
  have listed := h.reaching.contains hp named
  rw [InstructionList.contains, List.any_eq_true] at listed
  obtain ⟨j, hj, same⟩ := listed
  exact List.mem_map.2 ⟨j, hj, of_decide_eq_true same⟩

/-- An instruction is found where the instructions in front of it end. -/
lemma instructionAt_eq_some (h : d.SpelledBy resolver ps raws ts bytes) :
    d.instructionAt o = .ok (some ⟨k⟩)
      ↔ k < d.instructions.size ∧ Instruction.totalSize (d.instructions.items.take k) = .ok o := by
  have size : d.instructions.size = ps.length := by
    rw [InstructionList.size, ← h.reaching.placed, List.length_map]
  rw [size, ← h.reaching.placed, instructionAt, h.offsets]
  constructor
  · intro found
    split at found
    · cases found
    · split at found
      · next index indexed =>
        cases found
        obtain ⟨bound, start, _⟩ := List.idxOf?_eq_some_iff.1 indexed
        rw [List.length_map] at bound
        obtain ⟨m, total, same⟩ := h.reaching.consecutive.totalSize (List.getElem?_eq_getElem bound)
        rw [List.getElem_map, same, Nat.zero_add] at start
        exact ⟨bound, start ▸ total⟩
      · cases found
  · rintro ⟨bound, total⟩
    have piece := List.getElem?_eq_getElem bound
    obtain ⟨m, total', same⟩ := h.reaching.consecutive.totalSize piece
    cases total.symm.trans total'
    rw [Nat.zero_add] at same
    have within := h.reaching.consecutive.stop_le (List.mem_of_getElem? piece)
    have pos := Instruction.encodedSize_pos (h.reaching.consecutive.encodedSize (List.mem_of_getElem? piece))
    rw [h.total, Placed.stop, ← h.size] at within
    rw [if_neg (by omega), ← same, h.reaching.consecutive.idxOf?_start piece]

/-- No instruction is found at the end. -/
lemma instructionAt_eq_none (h : d.SpelledBy resolver ps raws ts bytes) :
    d.instructionAt o = .ok none ↔ o = bytes.length := by
  rw [← h.size, instructionAt]
  constructor
  · intro found
    split at found
    · next same => exact same
    · split at found <;> cases found
  · intro same
    exact if_pos same

/-- Where an instruction does not start and the code does not end, no instruction can be looked for. -/
lemma instructionAt_eq_error (h : d.SpelledBy resolver ps raws ts bytes) (inside : o ≠ bytes.length)
    (off : ∀ k < d.instructions.size, Instruction.totalSize (d.instructions.items.take k) ≠ .ok o) :
    d.instructionAt o = .error (.malformed (.offsetBoundary o)) := by
  cases found : d.instructionAt o with
  | ok id? =>
    cases id? with
    | some id =>
      obtain ⟨bound, total⟩ := h.instructionAt_eq_some.1 found
      exact absurd total (off id.val bound)
    | none => exact absurd (h.instructionAt_eq_none.1 found) inside
  | error e =>
    unfold instructionAt at found
    split at found
    · cases found
    · split at found
      · cases found
      · exact found.symm

end SpelledBy

/-- Decoded code is written byte for byte as it was read, is numbered from 0 on, and is found at the
offsets that its instructions add up to. -/
theorem transcribes_of_ofBytes {d : DecodedBody} {resolver : TokenResolver} {bytes : Bytes}
    (h : ofBytes bytes resolver = .ok d) : d.Transcribes resolver bytes := by
  obtain ⟨ps, raws, ts, spelled⟩ := spelledBy_of_ofBytes h
  have tokens := spelled.spelling.tokensIn_eq
  refine ⟨?_, ?_, spelled.identities, spelled.targets, fun o k => spelled.instructionAt_eq_some,
    fun o => spelled.instructionAt_eq_none, fun o => spelled.instructionAt_eq_error⟩
  · rw [tokens]
    exact spelled.resolves
  · rw [tokens]
    exact spelled.written

end DecodedBody

deriving instance DecidableEq for DecodedBody

namespace Example

/-- A switch to the last instruction, which goes back to the first one, with a text between them. -/
def switching : DecodedBody where
  instructions := .ofCode [(.ldcI4_0, .none), (.switch, .switch [⟨4⟩]), (.ldstr, .string "ready"),
    (.pop, .none), (.brShort, .target ⟨0⟩)]
  offsets := [0, 1, 10, 15, 16]
  size := 18

/-- The switch as bytes. -/
def switchingBytes : Bytes :=
  [0x16, 0x45, 1, 0, 0, 0, 6, 0, 0, 0, 0x72, 1, 0, 0, 0x70, 0x26, 0x2B, 0xEE]

/-- The switch is decoded from its bytes and encoded to them again, by an allocator that gives the first
text its first token. -/
theorem switching_transcribed :
    DecodedBody.ofBytes switchingBytes (.ofAnswers [(.string "ready", ⟨0x70000001⟩)]) = .ok switching
      ∧ switching.Transcribes (.ofAnswers [(.string "ready", ⟨0x70000001⟩)]) switchingBytes
      ∧ ∃ e log, EncodedBody.ofList switching.instructions .sequential ⟨1, []⟩ = .ok (e, log)
        ∧ e.code = switchingBytes := by
  have decoded : DecodedBody.ofBytes switchingBytes (.ofAnswers [(.string "ready", ⟨0x70000001⟩)])
      = .ok switching := by decide +kernel
  have transcribed := DecodedBody.transcribes_of_ofBytes decoded
  obtain ⟨write, asks, same⟩ := transcribed.written
  have tokens : RawInstruction.tokensIn switchingBytes = [⟨0x70000001⟩] := by decide +kernel
  rw [tokens] at same
  have asks : EncodedBody.ofList switching.instructions .sequential = _ := asks .sequential
  exact ⟨decoded, transcribed, write [⟨0x70000001⟩], _, congrFun asks ⟨1, []⟩, same⟩

end Example

end HookWeave

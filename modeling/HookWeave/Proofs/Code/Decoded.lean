import HookWeave.Proofs.Code.Spelling

/-!
# Decoded code

Code that was decoded is reaching, under the identities 0, 1, 2 and so on (`DecodedBody.spelledBy_of_ofBytes`):
it was read from bytes one after another, with displacements that reached their targets, and every target
was found at the start of an instruction. So it takes the bytes that it was read from when it is written,
and is settled if they can be counted (`DecodedBody.Decodes`).
-/

namespace HookWeave

namespace RawInstruction

variable {resolver : TokenResolver} {op : OpCode} {raw : RawOperand} {find : Nat → Option Nat}

/-! ## Targets found -/

/-- Looking for targets leaves as many of them as there were. -/
lemma encodedSize_of_resolveOperand {id : InstrId} {v : Operand} {stop : Nat}
    (fits : raw.Fits stop op.info.kind) (h : resolveOperand find raw = .ok v) :
    Instruction.encodedSize ⟨id, op, v⟩ = .ok (op.size + operandSize op.info.kind raw) := by
  unfold Instruction.encodedSize
  dsimp only
  generalize op.info.kind = k at fits ⊢
  cases fits with
  | resolved held => cases held <;> rfl
  | near | far => rfl
  | switch =>
    obtain ⟨ids, found, rfl⟩ := map_eq_ok.1 h
    rw [operandSize, (mapM_eq_ok.1 found).length_eq]
    rfl

/-- A piece is an instruction with its targets found, in the place that it was read from. -/
structure PlacedAs (find : Nat → Option Nat) (p : Placed) (i : RawInstruction) : Prop where
  start : p.start = i.offset
  size : p.size = i.size
  op : p.instruction.op = i.op
  operand : resolveOperand find i.operand = .ok p.instruction.operand
  fits : i.operand.Fits p.stop p.instruction.op.info.kind

/-- Instructions that were read one after another are pieces one after another. -/
lemma Spelling.pieces {raws : List RawInstruction} {ts : List Token} {bytes : Bytes} {n k : Nat}
    {code : List (OpCode × Operand)} (spelling : Spelling resolver n raws ts bytes)
    (found : List.Forall₂ (fun i c => c.1 = i.op ∧ resolveOperand find i.operand = .ok c.2) raws code) :
    ∃ ps, ps.map (·.instruction) = InstructionList.number k code ∧ Consecutive n ps
      ∧ (ps.map (·.size)).sum = bytes.length ∧ List.Forall₂ (PlacedAs find) ps raws := by
  induction spelling generalizing code k with
  | nil =>
    cases found
    exact ⟨[], rfl, .nil, rfl, .nil⟩
  | @cons i is us ts operand rest spelled _ _ ih =>
    cases found with
    | @cons _ c _ code first others =>
      obtain ⟨ps, placed, consecutive, total, each⟩ := ih (k := k + 1) others
      obtain ⟨op, v⟩ := c
      obtain ⟨rfl, found⟩ := first
      have fits := fits_of_spelled spelled
      refine ⟨⟨⟨⟨k⟩, i.op, v⟩, i.offset, i.size⟩ :: ps, ?_, ?_, ?_, ?_⟩
      · rw [List.map_cons, placed]
        rfl
      · exact .cons (p := ⟨⟨⟨k⟩, i.op, v⟩, i.offset, i.size⟩)
          (encodedSize_of_resolveOperand fits found) consecutive
      · rw [List.map_cons, List.sum_cons, total, ← List.append_assoc, List.length_append,
          length_of_spelled_operand spelled]
      · exact .cons ⟨rfl, rfl, rfl, found, fits⟩ each

end RawInstruction

/-! ## Decoded code -/

variable {resolver : TokenResolver} {ps : List Placed} {code : List (OpCode × Operand)} {o : Nat}

/-- In numbered code that is laid out as it stands, an offset that is found is the start of the
instruction found there. -/
lemma InstructionList.startOf_of_one {id : InstrId}
    (placed : ps.map (·.instruction) = (ofCode code).items)
    (h : RawInstruction.resolveOperand.one (ps.map (·.start)).idxOf? o = .ok id) :
    ((ofCode code).laidOut ps).startOf id = .ok o := by
  unfold RawInstruction.resolveOperand.one at h
  split at h
  · next k found =>
    cases h
    obtain ⟨bound, start, _⟩ := List.idxOf?_eq_some_iff.1 found
    rw [List.length_map] at bound
    have listed : k < code.length := by
      have length : (ps.map (·.instruction)).length = (number 0 code).length :=
        congrArg List.length placed
      rw [List.length_map, ← (forall₂_number code).length_eq] at length
      exact length ▸ bound
    refine bind_eq_ok.2 ⟨k, index_position.2 (position?_ofCode listed), ?_⟩
    rw [← start]
    simp only [laidOut, Array.getD_eq_getD_getElem?]
    simp [bound]
    rfl
  · cases h

/-- What an operand resolves to is located where it was read. -/
lemma InstructionList.located_of_resolveOperand {k : OperandKind} {raw : RawOperand} {v : Operand}
    {stop : Nat} (placed : ps.map (·.instruction) = (ofCode code).items)
    (fits : raw.Fits stop k)
    (h : RawInstruction.resolveOperand (ps.map (·.start)).idxOf? raw = .ok v) :
    ((ofCode code).laidOut ps).Located v raw := by
  cases fits with
  | resolved held =>
    cases h
    refine .resolved ?_
    cases held <;> rfl
  | near | far =>
    obtain ⟨id, found, rfl⟩ := map_eq_ok.1 h
    exact .target (startOf_of_one placed found)
  | switch =>
    obtain ⟨ids, found, rfl⟩ := map_eq_ok.1 h
    exact .switch ((mapM_eq_ok.1 found).flip.imp fun _ _ one => startOf_of_one placed one)

/-- A reference that an operand resolves to is one that was read. -/
lemma RawInstruction.references_of_resolveOperand {find : Nat → Option Nat} {raw : RawOperand}
    {v : Operand} (h : resolveOperand find raw = .ok v) : v.references = raw.references := by
  cases raw with
  | resolved =>
    cases h
    rfl
  | target o =>
    obtain ⟨id, _, rfl⟩ := map_eq_ok.1 h
    rfl
  | switch os =>
    obtain ⟨ids, _, rfl⟩ := map_eq_ok.1 h
    rfl

/-- The tokens of code are resolved to the references in the pieces, in their order. -/
lemma RawInstruction.Spelling.resolves {find : Nat → Option Nat} {raws : List RawInstruction}
    {ts : List Token} {bytes : Bytes} {n : Nat} (spelling : Spelling resolver n raws ts bytes)
    (pieces : List.Forall₂ (PlacedAs find) ps raws) :
    List.Forall₂ resolver.Resolves ts (ps.flatMap (·.instruction.operand.references)) := by
  induction spelling generalizing ps with
  | nil =>
    cases pieces
    exact .nil
  | cons _ resolves _ ih =>
    cases pieces with
    | @cons p _ ps _ first others =>
      rw [List.flatMap_cons, references_of_resolveOperand first.operand]
      exact List.rel_append resolves (ih others)

/-- Decoded code has the identities 0, 1, 2 and so on, in pieces that stand where the instructions of
the bytes do. -/
structure DecodedBody.SpelledBy (d : DecodedBody) (resolver : TokenResolver) (ps : List Placed)
    (raws : List RawInstruction) (ts : List Token) (bytes : Bytes) : Prop where
  spelling : RawInstruction.Spelling resolver 0 raws ts bytes
  numbered : ∃ code, d.instructions = .ofCode code
  reaching : d.instructions.Reaching ps
  pieces : List.Forall₂ (RawInstruction.PlacedAs d.offsets.idxOf?) ps raws
  located : List.Forall₂ (fun p i => (d.instructions.laidOut ps).Located p.instruction.operand i.operand)
    ps raws
  offsets : d.offsets = ps.map (·.start)
  total : (ps.map (·.size)).sum = bytes.length
  size : d.size = bytes.length

/-- The tokens of the bytes are resolved to the references of the code, in their order. -/
lemma DecodedBody.SpelledBy.resolves {d : DecodedBody} {raws : List RawInstruction} {ts : List Token}
    {bytes : Bytes} (h : d.SpelledBy resolver ps raws ts bytes) :
    List.Forall₂ resolver.Resolves ts d.instructions.references := by
  have resolves := h.spelling.resolves h.pieces
  rw [InstructionList.references, ← h.reaching.placed, List.flatMap_map]
  exact resolves

/-- Decoded code is spelled by the bytes that it was decoded from. -/
lemma DecodedBody.spelledBy_of_ofBytes {bytes : Bytes} {d : DecodedBody}
    (h : ofBytes bytes resolver = .ok d) : ∃ ps raws ts, d.SpelledBy resolver ps raws ts bytes := by
  unfold ofBytes at h
  split at h
  · cases h
  · obtain ⟨raws, read, h⟩ := bind_eq_ok.1 h
    obtain ⟨code, found, h⟩ := bind_eq_ok.1 h
    cases h
    obtain ⟨ts, spelling⟩ : ∃ ts, RawInstruction.Spelling resolver 0 raws ts bytes := by
      unfold Reader.value at read
      split at read
      · next c' all =>
        cases read
        exact RawInstruction.spelling_of_readAll all (Nat.le_refl _)
      · cases read
    have each : List.Forall₂ (fun i c => c.1 = i.op ∧ RawInstruction.resolveOperand
        (raws.map (·.offset)).idxOf? i.operand = .ok c.2) raws code := by
      refine (mapM_eq_ok.1 found).imp fun i c same => ?_
      obtain ⟨v, found, same⟩ := bind_eq_ok.1 same
      cases same
      exact ⟨rfl, found⟩
    obtain ⟨ps, placed, consecutive, total, pieces⟩ := spelling.pieces (k := 0) each
    have starts : raws.map (·.offset) = ps.map (·.start) := by
      rw [← List.forall₂_eq_eq_eq, List.forall₂_map_left_iff, List.forall₂_map_right_iff]
      exact pieces.flip.imp fun _ _ piece => piece.start.symm
    have located : List.Forall₂ (fun p i => ((InstructionList.ofCode code).laidOut ps).Located
        p.instruction.operand i.operand) ps raws := by
      refine pieces.imp fun p i piece => ?_
      have found := piece.operand
      rw [starts] at found
      exact InstructionList.located_of_resolveOperand placed piece.fits found
    refine ⟨ps, raws, ts, spelling, ⟨code, rfl⟩, ⟨placed, consecutive, fun p hp => ?_⟩, pieces, located,
      starts, total, rfl⟩
    obtain ⟨k, hk⟩ := List.mem_iff_getElem?.1 hp
    obtain ⟨i, hi, piece⟩ := forall₂_getElem? pieces hk
    obtain ⟨j, hj, there⟩ := forall₂_getElem? located hk
    cases hi.symm.trans hj
    exact ⟨i.operand, there, piece.fits⟩

/-- Decoded code has the identities 0, 1, 2 and so on, is settled in pieces that start at its offsets
and takes as many bytes as it was read from. -/
structure DecodedBody.Decodes (d : DecodedBody) (tokens : TokenResolver) (ps : List Placed) :
    Prop where
  numbered : ∃ code, d.instructions = .ofCode code
  settled : d.instructions.Settled ps
  offsets : d.offsets = ps.map (·.start)
  size : d.size = (ps.map (·.size)).sum
  resolved : ∀ r ∈ d.instructions.references, ∃ token, tokens.Resolves token r

/-- Code of few enough bytes to be counted is decoded to settled code. -/
lemma DecodedBody.decodes_of_ofBytes {bytes : Bytes} {d : DecodedBody}
    (h : ofBytes bytes resolver = .ok d) (small : bytes.length ≤ Encoding.maxCompressed) :
    ∃ ps, d.Decodes resolver ps := by
  obtain ⟨ps, raws, ts, spelled⟩ := spelledBy_of_ofBytes h
  obtain ⟨placed, consecutive, fits⟩ := spelled.reaching
  refine ⟨ps, spelled.numbered, ⟨placed, consecutive, fits, spelled.total ▸ small⟩, spelled.offsets,
    spelled.size.trans spelled.total.symm, fun r hr => ?_⟩
  obtain ⟨k, hk⟩ := List.mem_iff_getElem?.1 hr
  obtain ⟨token, _, resolves⟩ := forall₂_getElem? spelled.resolves.flip hk
  exact ⟨token, resolves⟩

end HookWeave

import HookWeave.Proofs.Code.RoundTrip
import HookWeave.Proofs.Image.Attributes

/-!
# Method bodies read back

A body reads back as the same body up to the identities of its instructions
(`yields_writeBody`). Its code comes back by the round trip of code, with the tables as the resolver
of tokens; every boundary of a clause was written as an offset at which the instruction of the same
position is found again.
-/

namespace HookWeave

/-! ## The same body under other identities -/

/-- The same clause, with boundaries that correspond by a relation; the end of the body corresponds
to itself only. -/
structure ExceptionClause.SameBy (r : InstrId → InstrId → Prop) (c d : ExceptionClause) : Prop where
  flags : d.flags = c.flags
  catchType : d.catchType = c.catchType
  tryStart : r c.tryStart d.tryStart
  tryEnd : Option.Rel r c.tryEnd d.tryEnd
  handlerStart : r c.handlerStart d.handlerStart
  handlerEnd : Option.Rel r c.handlerEnd d.handlerEnd

/-- The same body up to the identities of instructions, which correspond by position. -/
structure MethodBody.Same (b c : MethodBody) : Prop where
  maxStack : c.maxStack = b.maxStack
  initLocals : c.initLocals = b.initLocals
  locals : c.locals = b.locals
  code : b.instructions.SameCode c.instructions
  clauses : List.Forall₂ (ExceptionClause.SameBy (b.instructions.SamePosition c.instructions))
    b.clauses c.clauses

/-- The body as it is read back: the same body, with the instructions in the forms of their layout. -/
structure MethodBody.ReadBack (b c : MethodBody) : Prop where
  same : b.Same c
  laid : b.instructions.LaidAs c.instructions

/-! ## What can be read -/

/-- The clause catches exceptions of a type, or is of a kind that has no type. -/
def ExceptionClause.Usual (c : ExceptionClause) : Prop :=
  (c.flags = catchFlags ∧ c.catchType ≠ none)
    ∨ ((c.flags = finallyFlags ∨ c.flags = faultFlags) ∧ c.catchType = none)

/-- The types in a body nest less deep than the reader admits, and its clauses are usual. -/
structure MethodBody.Readable (b : MethodBody) : Prop where
  locals : ∀ t ∈ b.locals, t.Shallow
  references : ∀ r ∈ b.instructions.references, r.Shallow
  clauses : ∀ c ∈ b.clauses, c.Usual

namespace Image.Building

variable {b b' : Builder} {bytes : Bytes}

/-! ## Clauses -/

/-- The flags of a usual clause are admitted. -/
lemma isClauseFlags_of_usual {c : ExceptionClause} (h : c.Usual) :
    Tables.isClauseFlags c.flags = true := by
  obtain ⟨flags, _⟩ | ⟨flags | flags, _⟩ := h
  all_goals rw [flags]; decide

/-- A usual clause has a type if its flags say that it catches exceptions. -/
lemma catchType_of_usual {c : ExceptionClause} (h : c.Usual) :
    (c.flags = ExceptionClause.catchFlags) = (c.catchType.isSome = true) := by
  refine propext ?_
  obtain ⟨flags, typed⟩ | ⟨flags | flags, untyped⟩ := h
  · rw [flags]
    exact ⟨fun _ => Option.isSome_iff_ne_none.2 typed, fun _ => rfl⟩
  · rw [flags, untyped]
    decide
  · rw [flags, untyped]
    decide

/-- The length of a region leads from its start to its end. -/
lemma regionEnd_eq {code : DecodedBody} {start stop : Nat} {length : UInt32} {end? : Option InstrId}
    (h : regionLength start stop = .ok length) (small : stop < UInt32.size)
    (found : code.instructionAt stop = .ok end?) :
    Tables.regionEnd code start length.toNat = .ok end? := by
  unfold regionLength at h
  split at h
  · next le =>
    cases h
    have length : (UInt32.ofNat (stop - start)).toNat = stop - start :=
      UInt32.toNat_ofNat_of_lt' (by omega : stop - start < UInt32.size)
    have sum : start + (stop - start) = stop := by omega
    rw [Tables.regionEnd, length, sum, if_pos small, found]
  · cases h

/-- The first instruction of a region is found at its offset. -/
lemma regionStart_eq {code : DecodedBody} {o : Nat} {id : InstrId}
    (found : code.instructionAt o = .ok (some id)) : Tables.regionStart code o = .ok id := by
  rw [Tables.regionStart, found]
  rfl

/-- A clause reads back with its boundaries at the same positions. -/
lemma yields_writeClause {c : ExceptionClause} {l : InstructionList} {e : EncodedBody}
    {s s' : Builder} (usual : c.Usual) (encoded : EncodedBody.ofList l allocator s = .ok (e, s'))
    (small : e.code.length < UInt32.size) (h : writeClause e c b = .ok (bytes, b')) :
    Yields b b' fun tables => ∀ d : DecodedBody, d.Matches e l →
      bytes ≠ [] ∧ ∃ c', c.SameBy (l.SamePosition d.instructions) c'
        ∧ (tables.readClause d).Reads bytes c' := by
  obtain ⟨tryStart, tryEnd, handlerStart, handlerEnd, tryLength, handlerLength, catchType, tryStarts,
    tryEnds, handlerStarts, handlerEnds, tried, handled, interned, rfl⟩ := of_writeClause_eq_ok h
  refine (yields_interning interned fun _ h => interned_typeRef? h).imp fun tables typed d same => ?_
  obtain ⟨tryFirst, tryFirstSame, tryWithin, tryFound⟩ := same.start encoded tryStarts
  obtain ⟨tryLast, tryLastSame, tryLe, tryStops⟩ := same.stops encoded tryEnds
  obtain ⟨first, firstSame, within, found⟩ := same.start encoded handlerStarts
  obtain ⟨last, lastSame, le, stops⟩ := same.stops encoded handlerEnds
  refine ⟨?_, ⟨c.flags, tryFirst, tryLast, first, last, c.catchType⟩,
    ⟨rfl, rfl, tryFirstSame, tryLastSame, firstSame, lastSame⟩, ?_⟩
  · exact List.append_ne_nil_of_left_ne_nil (List.cons_ne_nil _ _) _
  · have tryOffset : (UInt32.ofNat tryStart).toNat = tryStart :=
      UInt32.toNat_ofNat_of_lt' (Nat.lt_trans tryWithin small)
    have offset : (UInt32.ofNat handlerStart).toNat = handlerStart :=
      UInt32.toNat_ofNat_of_lt' (Nat.lt_trans within small)
    refine (Reader.reads_uint16 c.flags).bind ?_
    refine (Reader.reads_uint32 _).bind ?_
    refine (Reader.reads_uint32 _).bind ?_
    refine (Reader.reads_uint32 _).bind ?_
    refine (Reader.reads_uint32 _).bind ?_
    refine typed.bind_nil ?_
    rw [tryOffset, offset, isClauseFlags_of_usual usual, if_neg (by decide),
      if_neg (not_not_intro (catchType_of_usual usual)), regionStart_eq tryFound,
      regionEnd_eq tried (Nat.lt_of_le_of_lt tryLe small) tryStops, regionStart_eq found,
      regionEnd_eq handled (Nat.lt_of_le_of_lt le small) stops]
    intro pos rest
    rfl

/-! ## Bodies -/

/-- Bytes that are preceded by their number are less than 4 GiB. -/
lemma length_lt_of_blob {out : Bytes} (h : Encoding.blob bytes = .ok out) :
    bytes.length < UInt32.size := by
  obtain ⟨count, counted, _⟩ := bind_eq_ok.1 h
  unfold Encoding.count at counted
  split at counted
  · assumption
  · cases counted

/-- The mark that says whether locals hold zeros reads back. -/
lemma reads_readInit (init : Bool) : Tables.readInit.Reads [if init then 1 else 0] init := by
  refine (Reader.reads_uint8 _).bind_nil ?_
  cases init
  all_goals exact Reader.Reads.pure

/-- Code reads back as what was encoded. -/
lemma reads_code {e : EncodedBody} {d : DecodedBody} {tables : Tables} {out : Bytes} {α : Type}
    {f : DecodedBody → Reader α} {a : α} {t : Bytes} (h : Encoding.blob e.code = .ok out)
    (decoded : DecodedBody.ofBytes e.code tables.resolver = .ok d) (hf : (f d).Reads t a) :
    (do
      let size ← Reader.count
      let bytes ← Reader.take size
      let code ← Reader.ofExcept (DecodedBody.ofBytes bytes tables.resolver)
      f code : Reader α).Reads (out ++ t) a := by
  obtain ⟨count, counted, h⟩ := bind_eq_ok.1 h
  cases h
  intro pos
  rw [List.append_assoc]
  refine Reader.readsAt_count_bind counted ?_ ?_
  · rw [List.length_append]
    exact Nat.le_add_right _ _
  · refine (Reader.reads_take e.code _).bind ?_
    rw [decoded]
    exact hf _

/-- A body reads back up to the identities of its instructions. -/
lemma yields_writeBody {body : MethodBody} (h : writeBody body b = .ok (bytes, b'))
    (readable : body.Readable) :
    Yields b b' fun tables => ∃ body', body.ReadBack body' ∧ tables.readBody.Reads bytes body' := by
  obtain ⟨locals, e, code, clauses, b₁, b₂, listed, encoded, boxed, written, rfl⟩ :=
    of_writeBody_eq_ok h
  have small := length_lt_of_blob boxed
  have listed : Yields b b₁ fun tables =>
      (Reader.list (SignatureReader.type tables.typeRefs).fresh).Reads locals body.locals := by
    refine yields_writeList_eq listed fun type ht _ _ _ interned => ?_
    refine (yields_interning interned fun _ h =>
      SignatureReader.interned_type h (readable.locals type ht)).imp fun _ read => ?_
    exact ⟨read.1, SignatureReader.reads_fresh read.2⟩
  obtain ⟨answered, answers, decodes⟩ := DecodedBody.laidAs_of_ofList encoded
  have resolved := yields_answers answers readable.references
  obtain ⟨count, pieces, counted, rfl, each⟩ := accumulates_yields.writeList written fun c hc _ _ _ h =>
    yields_writeClause (readable.clauses c hc) encoded small h
  refine (listed.and (resolved.and each)).imp fun tables ⟨listed, inverts, each⟩ => ?_
  obtain ⟨d, decoded, same, laid⟩ := decodes tables.resolver inverts small
  have clauses := Reader.reads_list counted (each.imp fun _ _ h => h d same)
  obtain ⟨cs, sameClauses, clauses⟩ := clauses
  refine ⟨⟨body.maxStack, body.initLocals, body.locals, d.instructions, cs⟩,
    ⟨⟨rfl, rfl, rfl, same.same, sameClauses⟩, laid⟩, ?_⟩
  refine (Reader.reads_uint16 body.maxStack).bind ?_
  refine Reader.Reads.bind (s := [_]) (reads_readInit body.initLocals) ?_
  refine listed.bind ?_
  exact reads_code boxed decoded clauses.bind_pure

/-- The body of a method reads back, if there is one. -/
lemma yields_writeBody? {body : Option MethodBody} (name : String)
    (h : writeBody? body b = .ok (bytes, b')) (readable : ∀ c ∈ body, c.Readable) :
    Yields b b' fun tables => ∃ body', Option.Rel MethodBody.ReadBack body body'
      ∧ (tables.readBody? name).Reads bytes body' := by
  cases body with
  | none =>
    obtain ⟨rfl, rfl⟩ := run_pure_eq_ok.1 h
    refine .refl fun tables => ⟨none, .none, ?_⟩
    exact (Reader.reads_uint8 0).bind_nil Reader.Reads.pure
  | some body =>
    obtain ⟨out, b₁, written, h⟩ := run_bind_eq_ok.1 h
    obtain ⟨rfl, rfl⟩ := run_pure_eq_ok.1 h
    refine (yields_writeBody written (readable body rfl)).imp fun tables ⟨body', same, read⟩ => ?_
    refine ⟨some body', .some same, ?_⟩
    refine Reader.Reads.bind (s := [_]) (Reader.reads_uint8 1) ?_
    exact read.bind_pure

end Image.Building

end HookWeave

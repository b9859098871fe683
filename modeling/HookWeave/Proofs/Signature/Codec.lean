import HookWeave.Proofs.Bytes.Reads
import HookWeave.Proofs.Outcomes
import HookWeave.Signature.Codec

/-!
# Signatures read back

A table grows at its end only (`Table.grows_intern`), so the rows that a signature was written with
name the same types in every table that comes of it later. `Interned t t' P` says that writing took
the table `t` to `t'` and made `P` true of every such later table. A type is spelled by the bytes
that it was written in (`spelled_type`), which read back if it nests less deep than is admitted
(`SignatureReader.reads_spelled`); so do a method signature and a field signature (`interned_method`,
`interned_field`).
-/

namespace HookWeave

/-! ## Tables -/

namespace Table

variable {α : Type} {t t' : Table α} {a : α} {row : Nat}

/-- A table keeps its rows and has one for the new value. -/
lemma grows_intern [DecidableEq α] (h : t.intern a = (row, t')) :
    t.rows <+: t'.rows ∧ ∃ k, row = k + 1 ∧ t'.rows[k]? = some a := by
  unfold intern at h
  split at h
  · next k found =>
    cases h
    refine ⟨List.prefix_refl _, k, rfl, ?_⟩
    obtain ⟨bound, same, _⟩ := List.idxOf?_eq_some_iff.1 found
    rw [List.getElem?_eq_getElem bound, same]
  · cases h
    refine ⟨List.prefix_append _ _, t.size, rfl, ?_⟩
    exact List.getElem?_concat_length

/-- A row means the same in a table that goes on. -/
lemma getElem?_of_prefix {rows later : List α} {k : Nat} (h : rows <+: later)
    (hk : rows[k]? = some a) : later[k]? = some a := by
  obtain ⟨rest, rfl⟩ := h
  rw [List.getElem?_append_left (List.getElem?_eq_some_iff.1 hk).1]
  exact hk

end Table

/-- Writing took the table from `t` to `t'`, and `P` is true of every table that goes on from
there. -/
structure Interned (t t' : Table TypeRef) (P : Table TypeRef → Prop) : Prop where
  grows : t.rows <+: t'.rows
  holds : ∀ table : Table TypeRef, t'.rows <+: table.rows → P table

variable {t t₁ t' : Table TypeRef} {P Q : Table TypeRef → Prop} {bytes : Bytes}

lemma Interned.refl (h : ∀ table, P table) : Interned t t P :=
  ⟨List.prefix_refl _, fun table _ => h table⟩

/-- What is true after the first of two steps stays true after the second. -/
lemma Interned.and (h : Interned t t₁ P) (h' : Interned t₁ t' Q) :
    Interned t t' fun table => P table ∧ Q table :=
  ⟨h.grows.trans h'.grows,
    fun table later => ⟨h.holds table (h'.grows.trans later), h'.holds table later⟩⟩

lemma Interned.imp (h : Interned t t' P) (weaker : ∀ table, P table → Q table) :
    Interned t t' Q :=
  ⟨h.grows, fun table later => weaker table (h.holds table later)⟩

/-! ## Type references -/

/-- The bytes are those of a row of the table that holds the type reference. -/
def TypeRef.Spelled (table : Table TypeRef) (ref : TypeRef) (bytes : Bytes) : Prop :=
  ∃ k, Encoding.compressed (k + 1) = .ok bytes ∧ table.rows[k]? = some ref

lemma spelled_typeRef {ref : TypeRef} (h : ref.encode t = .ok (bytes, t')) :
    Interned t t' fun table => ref.Spelled table bytes := by
  obtain ⟨row, t₁, interned, rest⟩ := run_bind_eq_ok.1 h
  obtain ⟨encoded, rfl⟩ := run_lift_eq_ok.1 rest
  obtain ⟨grows, k, rfl, found⟩ := Table.grows_intern (Except.ok.inj interned)
  exact ⟨grows, fun table later => ⟨k, encoded, Table.getElem?_of_prefix later found⟩⟩

/-- A type reference reads back by its row. -/
lemma TypeRef.Spelled.reads {table : Table TypeRef} {ref : TypeRef} (h : ref.Spelled table bytes) :
    table.readTypeRef?.Reads bytes (some ref) := by
  obtain ⟨k, encoded, found⟩ := h
  refine (Reader.reads_row encoded).bind_nil ?_
  have found : table.typeRef k = .ok ref := by
    rw [Table.typeRef, Table.get?, found]
  simp only [found]
  exact Reader.Reads.pure

lemma interned_typeRef {ref : TypeRef} (h : ref.encode t = .ok (bytes, t')) :
    Interned t t' fun table => bytes ≠ [] ∧ table.readTypeRef?.Reads bytes (some ref) :=
  (spelled_typeRef h).imp fun _ spelled =>
    ⟨Reader.compressed_ne_nil spelled.choose_spec.1, spelled.reads⟩

lemma Table.reads_readTypeRef {table : Table TypeRef} {ref : TypeRef}
    (h : table.readTypeRef?.Reads bytes (some ref)) : table.readTypeRef.Reads bytes ref :=
  h.bind_nil Reader.Reads.pure

/-- An optional type reference reads back by its row or as none. -/
lemma interned_typeRef? {ref : Option TypeRef} (h : TypeRef.encodeOption ref t = .ok (bytes, t')) :
    Interned t t' fun table => table.readTypeRef?.Reads bytes ref := by
  cases ref with
  | some ref => exact (interned_typeRef h).imp fun _ read => read.2
  | none =>
    obtain ⟨encoded, rfl⟩ := run_lift_eq_ok.1 h
    exact .refl fun table => (Reader.reads_row_zero encoded).bind_nil Reader.Reads.pure

/-! ## Types in bytes -/

/-- The bytes of a type, in which types by name are rows of the table. -/
inductive TypeSig.Spelled (table : Table TypeRef) : TypeSig → Bytes → Prop
  | prim {p : Primitive} :
    Spelled table (.prim p) [p.code]
  | refType {ref : TypeRef} {bytes : Bytes} :
    ref.Spelled table bytes →
    Spelled table (.refType ref) (ElementCode.refType :: bytes)
  | valueType {ref : TypeRef} {bytes : Bytes} :
    ref.Spelled table bytes →
    Spelled table (.valueType ref) (ElementCode.valueType :: bytes)
  | byRef {target : TypeSig} {bytes : Bytes} :
    Spelled table target bytes →
    Spelled table (.byRef target) (ElementCode.byRef :: bytes)
  | array {element : TypeSig} {bytes : Bytes} :
    Spelled table element bytes →
    Spelled table (.array element) (ElementCode.array :: bytes)

lemma TypeSig.Spelled.ne_nil {table : Table TypeRef} {type : TypeSig} (h : type.Spelled table bytes) :
    bytes ≠ [] := by
  cases h <;> exact List.cons_ne_nil _ _

/-- A type is spelled by what it was written in. -/
lemma spelled_type {type : TypeSig} (h : type.encode t = .ok (bytes, t')) :
    Interned t t' fun table => type.Spelled table bytes := by
  induction type generalizing bytes with
  | prim p =>
    obtain ⟨rfl, rfl⟩ := run_pure_eq_ok.1 h
    exact .refl fun _ => .prim
  | refType ref =>
    obtain ⟨row, t₁, encoded, h⟩ := run_bind_eq_ok.1 h
    obtain ⟨rfl, rfl⟩ := run_pure_eq_ok.1 h
    exact (spelled_typeRef encoded).imp fun _ => .refType
  | valueType ref =>
    obtain ⟨row, t₁, encoded, h⟩ := run_bind_eq_ok.1 h
    obtain ⟨rfl, rfl⟩ := run_pure_eq_ok.1 h
    exact (spelled_typeRef encoded).imp fun _ => .valueType
  | byRef target ih =>
    obtain ⟨row, t₁, encoded, h⟩ := run_bind_eq_ok.1 h
    obtain ⟨rfl, rfl⟩ := run_pure_eq_ok.1 h
    exact (ih encoded).imp fun _ => .byRef
  | array element ih =>
    obtain ⟨row, t₁, encoded, h⟩ := run_bind_eq_ok.1 h
    obtain ⟨rfl, rfl⟩ := run_pure_eq_ok.1 h
    exact (ih encoded).imp fun _ => .array

/-! ## Signatures in bytes -/

/-- The bytes of types one after another. -/
inductive TypeSig.SpelledAll (table : Table TypeRef) : List TypeSig → Bytes → Prop
  | nil : SpelledAll table [] []
  | cons {type : TypeSig} {types : List TypeSig} {front back : Bytes} :
    type.Spelled table front →
    SpelledAll table types back →
    SpelledAll table (type :: types) (front ++ back)

/-- There are as many bytes as types. -/
lemma TypeSig.SpelledAll.length_le {table : Table TypeRef} {types : List TypeSig}
    (h : SpelledAll table types bytes) : types.length ≤ bytes.length := by
  induction h with
  | nil => exact Nat.le_refl _
  | cons first _ ih =>
    have := List.length_pos_iff.2 first.ne_nil
    rw [List.length_cons, List.length_append]
    omega

lemma spelled_types {types : List TypeSig} (h : TypeSig.encodeList types t = .ok (bytes, t')) :
    Interned t t' fun table => TypeSig.SpelledAll table types bytes := by
  induction types generalizing t bytes with
  | nil =>
    obtain ⟨rfl, rfl⟩ := run_pure_eq_ok.1 h
    exact .refl fun _ => .nil
  | cons type types ih =>
    obtain ⟨front, t₁, first, h⟩ := run_bind_eq_ok.1 h
    obtain ⟨back, t₂, others, h⟩ := run_bind_eq_ok.1 h
    obtain ⟨rfl, rfl⟩ := run_pure_eq_ok.1 h
    exact ((spelled_type first).and (ih others)).imp fun _ both => .cons both.1 both.2

/-- The bytes of a method signature. -/
inductive MethodSig.Spelled (table : Table TypeRef) (sig : MethodSig) : Bytes → Prop
  | intro {count ret params : Bytes} :
    Encoding.count sig.params.length = .ok count →
    sig.ret.Spelled table ret →
    TypeSig.SpelledAll table sig.params params →
    Spelled table sig ((if sig.hasThis then ElementCode.hasThis else 0) :: (count ++ (ret ++ params)))

lemma spelled_method {sig : MethodSig} (h : sig.encode t = .ok (bytes, t')) :
    Interned t t' fun table => sig.Spelled table bytes := by
  obtain ⟨count, counted, h⟩ := run_lift_bind_eq_ok.1 h
  obtain ⟨ret, t₁, first, h⟩ := run_bind_eq_ok.1 h
  obtain ⟨params, t₂, others, h⟩ := run_bind_eq_ok.1 h
  obtain ⟨rfl, rfl⟩ := run_pure_eq_ok.1 h
  exact ((spelled_type first).and (spelled_types others)).imp fun _ both => .intro counted both.1 both.2

/-- The bytes of a field signature are a mark and those of the type. -/
lemma spelled_field {type : TypeSig} (h : type.encodeField t = .ok (bytes, t')) :
    Interned t t' fun table => ∃ typed, bytes = ElementCode.field :: typed ∧ type.Spelled table typed := by
  obtain ⟨typed, t₁, encoded, h⟩ := run_bind_eq_ok.1 h
  obtain ⟨rfl, rfl⟩ := run_pure_eq_ok.1 h
  exact (spelled_type encoded).imp fun _ spelled => ⟨typed, rfl, spelled⟩

/-! ## What is not nested too deeply -/

/-- The nesting that a type must stay below to be read: one level of the reader's is taken by the
innermost type. -/
def SignatureReader.maxNesting : Nat := maxDepth - 1

/-- The type nests less deep than the reader admits. -/
def TypeSig.Shallow (t : TypeSig) : Prop :=
  t.nesting < SignatureReader.maxNesting

instance (t : TypeSig) : Decidable t.Shallow :=
  inferInstanceAs (Decidable (t.nesting < SignatureReader.maxNesting))

/-- The types of the signature nest less deep than the reader admits. -/
structure MethodSig.Shallow (s : MethodSig) : Prop where
  ret : s.ret.Shallow
  params : ∀ t ∈ s.params, t.Shallow

/-! ## Reads at a depth -/

namespace SignatureReader

variable {α β : Type} {r : SignatureReader α} {f : α → SignatureReader β} {a : α} {b : β}
  {d m n : Nat} {s w : Bytes}

/-- The read takes exactly these bytes at every offset, and goes from one depth to another. -/
def Reads (r : SignatureReader α) (d n : Nat) (bytes : Bytes) (a : α) : Prop :=
  ∀ pos rest, r ⟨⟨pos, bytes ++ rest⟩, d⟩ = .ok a ⟨⟨pos + bytes.length, rest⟩, n⟩

lemma Reads.pure : (Pure.pure a : SignatureReader α).Reads d d [] a := by
  intro pos rest
  rfl

lemma Reads.bind (hr : r.Reads d m s a) (hf : (f a).Reads m n w b) :
    (r >>= f).Reads d n (s ++ w) b := by
  intro pos rest
  show EStateM.bind r f _ = _
  unfold EStateM.bind
  rw [List.append_assoc, hr]
  simp only
  rw [hf, List.length_append, Nat.add_assoc]

lemma Reads.bind_nil (hr : r.Reads d m s a) (hf : (f a).Reads m n [] b) :
    (r >>= f).Reads d n s b := by
  have h := hr.bind hf
  rw [List.append_nil] at h
  exact h

lemma Reads.nil_bind (hr : r.Reads d m [] a) (hf : (f a).Reads m n s b) :
    (r >>= f).Reads d n s b :=
  hr.bind hf

lemma Reads.map (g : α → β) (hr : r.Reads d n s a) : (g <$> r).Reads d n s (g a) := by
  intro pos rest
  have h := hr pos rest
  show EStateM.map g r _ = _
  rw [EStateM.map, h]

lemma reads_lift {r : Reader α} (hr : r.Reads s a) : (lift r).Reads d d s a := by
  intro pos rest
  rw [lift, hr pos rest]

lemma reads_fresh (hr : r.Reads 0 n s a) : (fresh r).Reads s a := by
  intro pos rest
  rw [fresh, hr pos rest]

/-- A count reads back in front of the elements that it announces. -/
lemma reads_count_bind {k : Nat} {f : Nat → SignatureReader β} (h : Encoding.count k = .ok s)
    (enough : k ≤ w.length) (hf : (f k).Reads d n w b) :
    (lift Reader.count >>= f).Reads d n (s ++ w) b := by
  intro pos rest
  have enough : k ≤ (w ++ rest).length := by
    rw [List.length_append]
    omega
  show EStateM.bind (lift Reader.count) f _ = _
  unfold EStateM.bind lift
  rw [List.append_assoc, Reader.count_apply h enough]
  simp only
  rw [hf, List.length_append, Nat.add_assoc]

lemma reads_enter : enter.Reads d (d + 1) [] () := by
  intro pos rest
  rfl

lemma reads_leave : leave.Reads (d + 1) d [] () := by
  intro pos rest
  rfl

/-! ## Types -/

/-- A built-in type is found by its code. -/
lemma ofCode?_code (p : Primitive) : Primitive.ofCode? p.code = some p := by
  cases p <;> decide

/-- Reads what follows the code of a type, whose inner type may nest `levels` levels deep. -/
def typeAfter (table : Table TypeRef) (levels : Nat) (code : UInt8) : SignatureReader TypeSig :=
  match Primitive.ofCode? code with
  | some p => pure (.prim p)
  | none =>
    if code = ElementCode.refType then .refType <$> lift table.readTypeRef
    else if code = ElementCode.valueType then .valueType <$> lift table.readTypeRef
    else if code = ElementCode.byRef then .byRef <$> typeWithin table levels
    else if code = ElementCode.array then .array <$> typeWithin table levels
    else do throw (.malformed (.elementType code ((← get).cursor.pos - 1)))

/-- A type is read one level down, from its code on. -/
lemma typeWithin_succ (table : Table TypeRef) (levels : Nat) :
    typeWithin table (levels + 1) = (do
      enter
      let code ← lift Reader.uint8
      let type ← typeAfter table levels code
      leave
      return type) := by
  rw [typeWithin]
  refine congrArg (enter >>= ·) (funext fun _ => ?_)
  refine congrArg (lift Reader.uint8 >>= ·) (funext fun code => ?_)
  unfold typeAfter
  dsimp only
  cases Primitive.ofCode? code with
  | some p => rfl
  | none =>
    dsimp only
    by_cases ref : code = ElementCode.refType
    · rw [if_pos ref, if_pos ref]
    rw [if_neg ref, if_neg ref]
    by_cases value : code = ElementCode.valueType
    · rw [if_pos value, if_pos value]
    rw [if_neg value, if_neg value]
    by_cases byRef : code = ElementCode.byRef
    · rw [if_pos byRef, if_pos byRef]
    rw [if_neg byRef, if_neg byRef]
    by_cases array : code = ElementCode.array
    · rw [if_pos array, if_pos array]
    rw [if_neg array, if_neg array]
    rfl

/-- A type that is read one level down is read up here. -/
lemma reads_typeWithin {table : Table TypeRef} {levels : Nat} {code : UInt8} {type : TypeSig}
    (inner : (typeAfter table levels code).Reads (d + 1) (d + 1) s type) :
    (typeWithin table (levels + 1)).Reads d d (code :: s) type := by
  rw [typeWithin_succ]
  refine reads_enter.nil_bind ?_
  refine Reads.bind (s := [code]) (reads_lift (Reader.reads_uint8 code)) ?_
  refine inner.bind_nil ?_
  exact reads_leave.nil_bind Reads.pure

/-- A type reads back if it nests less deep than is admitted. -/
lemma reads_spelled {table : Table TypeRef} {type : TypeSig} {levels : Nat}
    (h : type.Spelled table bytes) (shallow : type.nesting < levels) (d : Nat) :
    (typeWithin table levels).Reads d d bytes type := by
  obtain ⟨levels, rfl⟩ := Nat.exists_eq_add_one.2 (Nat.zero_lt_of_lt shallow)
  induction h generalizing levels d with
  | prim =>
    refine reads_typeWithin ?_
    rw [typeAfter, ofCode?_code]
    exact Reads.pure
  | refType named =>
    refine reads_typeWithin ?_
    exact (reads_lift (Table.reads_readTypeRef named.reads)).map TypeSig.refType
  | valueType named =>
    refine reads_typeWithin ?_
    exact (reads_lift (Table.reads_readTypeRef named.reads)).map TypeSig.valueType
  | byRef _ ih =>
    have shallow := Nat.lt_of_succ_lt_succ shallow
    obtain ⟨levels, rfl⟩ := Nat.exists_eq_add_one.2 (Nat.zero_lt_of_lt shallow)
    refine reads_typeWithin ?_
    exact (ih (d + 1) levels shallow).map TypeSig.byRef
  | array _ ih =>
    have shallow := Nat.lt_of_succ_lt_succ shallow
    obtain ⟨levels, rfl⟩ := Nat.exists_eq_add_one.2 (Nat.zero_lt_of_lt shallow)
    refine reads_typeWithin ?_
    exact (ih (d + 1) levels shallow).map TypeSig.array

/-- A type reads back. -/
lemma reads_type {table : Table TypeRef} {type : TypeSig} (h : type.Spelled table bytes)
    (shallow : type.Shallow) : (SignatureReader.type table).Reads 0 0 bytes type := by
  intro pos rest
  exact reads_spelled h shallow 0 pos rest

lemma interned_type {type : TypeSig} (h : type.encode t = .ok (bytes, t')) (shallow : type.Shallow) :
    Interned t t' fun table => bytes ≠ [] ∧ (SignatureReader.type table).Reads 0 0 bytes type :=
  (spelled_type h).imp fun _ spelled => ⟨spelled.ne_nil, reads_type spelled shallow⟩

/-! ## Signatures -/

/-- Types read back one after another. -/
lemma reads_types {table : Table TypeRef} {types : List TypeSig} (h : TypeSig.SpelledAll table types bytes)
    (shallow : ∀ type ∈ types, type.Shallow) :
    (SignatureReader.types table types.length).Reads 0 0 bytes types := by
  induction h with
  | nil => exact Reads.pure
  | cons first _ ih =>
    obtain ⟨shallow, others⟩ := List.forall_mem_cons.1 shallow
    exact (reads_type first shallow).bind ((ih others).bind_nil Reads.pure)

/-- A method signature reads back. -/
lemma reads_method {table : Table TypeRef} {sig : MethodSig} (h : sig.Spelled table bytes)
    (shallow : sig.Shallow) : (SignatureReader.method table).Reads 0 0 bytes sig := by
  cases h with
  | @intro _ ret params counted returned taken =>
    have enough : sig.params.length ≤ (ret ++ params).length := by
      have := taken.length_le
      rw [List.length_append]
      omega
    have reads := reads_type returned shallow.ret
    have parts : (SignatureReader.type table >>= fun ret =>
        types table sig.params.length >>= fun params => pure (⟨sig.hasThis, ret, params⟩ : MethodSig)).Reads 0 0
        (ret ++ params) sig := reads.bind ((reads_types taken shallow.params).bind_nil Reads.pure)
    refine Reads.bind (s := [_]) (reads_lift (Reader.reads_uint8 _)) ?_
    cases receiver : sig.hasThis with
    | true =>
      rw [receiver] at parts
      exact reads_count_bind counted enough parts
    | false =>
      rw [receiver] at parts
      exact reads_count_bind counted enough parts

lemma interned_method {sig : MethodSig} (h : sig.encode t = .ok (bytes, t')) (shallow : sig.Shallow) :
    Interned t t' fun table => (SignatureReader.method table).Reads 0 0 bytes sig :=
  (spelled_method h).imp fun _ spelled => reads_method spelled shallow

/-- A field signature reads back. -/
lemma interned_field {type : TypeSig} (h : type.encodeField t = .ok (bytes, t'))
    (shallow : type.Shallow) :
    Interned t t' fun table => (SignatureReader.field table).Reads 0 0 bytes type := by
  refine (spelled_field h).imp fun table ⟨typed, same, spelled⟩ => ?_
  rw [same]
  refine Reads.bind (s := [ElementCode.field]) (reads_lift (Reader.reads_uint8 _)) ?_
  rw [if_neg (not_not_intro rfl)]
  exact reads_type spelled shallow

end SignatureReader

end HookWeave

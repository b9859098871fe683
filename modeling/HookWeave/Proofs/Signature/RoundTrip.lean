import HookWeave.Proofs.Signature.Finds

/-!
# Signatures read from a table that has grown

What was written for a signature reads back as that signature from the table that writing left, and from
every table that comes of it when more references are put in (`SignatureReader.signatures_round_trip`).
The reader takes the bytes of the signature and no others. It has one level less for every address and
every array around a type, so a type that nests too deep is refused in front of its innermost part,
whatever the table holds (`refuses_typeWithin`), and a signature is refused at the first such type in it.
-/

namespace HookWeave

/-! ## Tables that have grown -/

section

variable {α : Type} [DecidableEq α]

/-- The table after values were put into it, one after another. -/
def Table.internAll (t : Table α) (as : List α) : Table α :=
  as.foldl (fun t a => (t.intern a).2) t

/-- A table keeps its rows, however many values are put into it. -/
lemma Table.prefix_internAll (t : Table α) (as : List α) : t.rows <+: (t.internAll as).rows := by
  induction as generalizing t with
  | nil => exact List.prefix_refl _
  | cons a as ih =>
    have interned : t.intern a = ((t.intern a).1, (t.intern a).2) := rfl
    exact (grows_intern interned).1.trans (ih (t.intern a).2)

end

/-! ## Bytes of types -/

variable {t t' : Table TypeRef} {bytes : Bytes}

/-- What a type is written in is not empty. -/
lemma TypeSig.encode_ne_nil {type : TypeSig} (h : type.encode t = .ok (bytes, t')) : bytes ≠ [] := by
  cases type with
  | prim p =>
    obtain ⟨rfl, rfl⟩ := run_pure_eq_ok.1 h
    exact List.cons_ne_nil _ _
  | refType inner | valueType inner | byRef inner | array inner =>
    obtain ⟨back, t₁, encoded, h⟩ := run_bind_eq_ok.1 h
    obtain ⟨rfl, rfl⟩ := run_pure_eq_ok.1 h
    exact List.cons_ne_nil _ _

/-- Types take a byte each at least. -/
lemma TypeSig.length_le_encodeList {types : List TypeSig} (h : encodeList types t = .ok (bytes, t')) :
    types.length ≤ bytes.length := by
  induction types generalizing t bytes with
  | nil => exact Nat.zero_le _
  | cons type types ih =>
    obtain ⟨front, t₁, first, h⟩ := run_bind_eq_ok.1 h
    obtain ⟨back, t₂, others, h⟩ := run_bind_eq_ok.1 h
    obtain ⟨rfl, rfl⟩ := run_pure_eq_ok.1 h
    have filled := List.length_pos_iff.2 (encode_ne_nil first)
    have enough := ih others
    rw [List.length_cons, List.length_append]
    omega

namespace SignatureReader

variable {α β : Type} {r : SignatureReader α} {f : α → SignatureReader β} {a : α} {e : Fault}
  {d m levels : Nat} {s w : Bytes} {table : Table TypeRef}

/-! ## Reads that are refused -/

/-- The read fails on these bytes, whatever follows. -/
def Refuses (r : SignatureReader α) (d : Nat) (bytes : Bytes) (e : Fault) : Prop :=
  ∀ pos rest, ∃ s, r ⟨⟨pos, bytes ++ rest⟩, d⟩ = .error e s

/-- What follows is of no importance. -/
lemma Refuses.append (h : r.Refuses d s e) (w : Bytes) : r.Refuses d (s ++ w) e := by
  intro pos rest
  rw [List.append_assoc]
  exact h pos (w ++ rest)

/-- Behind a read that is refused nothing is read. -/
lemma Refuses.bind (h : r.Refuses d s e) : (r >>= f).Refuses d s e := by
  intro pos rest
  obtain ⟨stopped, read⟩ := h pos rest
  exact ⟨stopped, bind_of_error read⟩

lemma Refuses.map {g : α → β} (h : r.Refuses d s e) : (g <$> r).Refuses d s e := by
  rw [map_eq_pure_bind]
  exact h.bind

/-- A read that goes well is followed by one that is refused. -/
lemma Reads.bind_refuses (hr : r.Reads d m s a) (hf : (f a).Refuses m w e) :
    (r >>= f).Refuses d (s ++ w) e := by
  intro pos rest
  obtain ⟨stopped, read⟩ := hf (pos + s.length) rest
  rw [List.append_assoc]
  exact ⟨stopped, (bind_of_ok (hr pos (w ++ rest))).trans read⟩

/-- A count is read where enough bytes follow, and what it counts may be refused. -/
lemma refuses_count_bind {k : Nat} {f : Nat → SignatureReader β} (h : Encoding.count k = .ok s)
    (enough : k ≤ w.length) (hf : (f k).Refuses d w e) :
    (lift Reader.count >>= f).Refuses d (s ++ w) e := by
  intro pos rest
  obtain ⟨stopped, read⟩ := hf (pos + s.length) rest
  have counted : lift Reader.count ⟨⟨pos, s ++ (w ++ rest)⟩, d⟩
      = .ok k ⟨⟨pos + s.length, w ++ rest⟩, d⟩ := by
    rw [lift, Reader.count_apply h (by rw [List.length_append]; omega)]
  rw [List.append_assoc]
  exact ⟨stopped, (bind_of_ok counted).trans read⟩

lemma refuses_fresh (h : r.Refuses 0 bytes e) (pos : Nat) (rest : Bytes) :
    ∃ c, fresh r ⟨pos, bytes ++ rest⟩ = .error e c := by
  obtain ⟨stopped, read⟩ := h pos rest
  refine ⟨stopped.cursor, ?_⟩
  rw [fresh, read]

/-! ## Types that nest too deep -/

/-- What is refused one level down is refused up here. -/
lemma refuses_typeWithin_succ {code : UInt8} (inner : (typeAfter table levels code).Refuses (d + 1) s e) :
    (typeWithin table (levels + 1)).Refuses d (code :: s) e := by
  rw [typeWithin_succ]
  refine Reads.bind_refuses (s := []) reads_enter ?_
  exact Reads.bind_refuses (s := [code]) (reads_lift (Reader.reads_uint8 code)) inner.bind

/-- A type that nests as deep as there are levels, or deeper, is refused. -/
lemma refuses_typeWithin {type : TypeSig} (h : type.encode t = .ok (bytes, t'))
    (deep : levels ≤ type.nesting) :
    (typeWithin table levels).Refuses d bytes (.recursionLimit maxDepth) := by
  induction type generalizing bytes levels d with
  | prim | refType | valueType =>
    cases Nat.le_zero.1 deep
    exact fun pos rest => ⟨_, rfl⟩
  | byRef target ih =>
    cases levels with
    | zero => exact fun pos rest => ⟨_, rfl⟩
    | succ levels =>
      obtain ⟨back, t₁, encoded, h⟩ := run_bind_eq_ok.1 h
      obtain ⟨rfl, rfl⟩ := run_pure_eq_ok.1 h
      exact refuses_typeWithin_succ (ih encoded (Nat.le_of_succ_le_succ deep)).map
  | array element ih =>
    cases levels with
    | zero => exact fun pos rest => ⟨_, rfl⟩
    | succ levels =>
      obtain ⟨back, t₁, encoded, h⟩ := run_bind_eq_ok.1 h
      obtain ⟨rfl, rfl⟩ := run_pure_eq_ok.1 h
      exact refuses_typeWithin_succ (ih encoded (Nat.le_of_succ_le_succ deep)).map

/-- A type that nests deeper than the reader admits is refused. -/
lemma refuses_type {type : TypeSig} (h : type.encode t = .ok (bytes, t')) (deep : ¬ type.Shallow) :
    (SignatureReader.type table).Refuses 0 bytes (.recursionLimit maxDepth) := by
  have deep : maxNesting ≤ type.nesting := Nat.le_of_not_lt deep
  exact refuses_typeWithin h deep

/-- A type is refused if it nests too deep, and else what is read behind it may be. -/
lemma refuses_type_bind {type : TypeSig} {t₁ : Table TypeRef} {front back : Bytes}
    {f : Table TypeRef → TypeSig → SignatureReader β} (first : type.encode t = .ok (front, t₁))
    (grows : t₁.rows <+: t'.rows)
    (behind : type.Shallow →
      Interned t₁ t' fun table => (f table type).Refuses 0 back (.recursionLimit maxDepth)) :
    Interned t t' fun table =>
      (SignatureReader.type table >>= f table).Refuses 0 (front ++ back) (.recursionLimit maxDepth) := by
  by_cases shallow : type.Shallow
  · refine ((interned_type first shallow).and (behind shallow)).imp fun table ⟨⟨_, read⟩, refused⟩ => ?_
    exact read.bind_refuses refused
  · refine ⟨(found_type first).grows.trans grows, fun table _ => ?_⟩
    exact (refuses_type first shallow).bind.append back

/-- Types are refused at the first of them that nests too deep, for those in front of it are read. -/
lemma refuses_types {types : List TypeSig} (h : TypeSig.encodeList types t = .ok (bytes, t'))
    (deep : ¬ ∀ type ∈ types, type.Shallow) :
    Interned t t' fun table =>
      (SignatureReader.types table types.length).Refuses 0 bytes (.recursionLimit maxDepth) := by
  induction types generalizing t bytes with
  | nil => exact absurd (List.forall_mem_nil _) deep
  | cons type types ih =>
    obtain ⟨front, t₁, first, h⟩ := run_bind_eq_ok.1 h
    obtain ⟨back, t₂, others, h⟩ := run_bind_eq_ok.1 h
    obtain ⟨rfl, rfl⟩ := run_pure_eq_ok.1 h
    refine refuses_type_bind first (spelled_types others).grows fun shallow => ?_
    have behind := ih others fun all => deep (List.forall_mem_cons.2 ⟨shallow, all⟩)
    exact behind.imp fun table refused => refused.bind

/-- A method signature is refused if one of its types nests too deep. -/
lemma refuses_method {sig : MethodSig} (h : sig.encode t = .ok (bytes, t'))
    (deep : ¬ ∀ type ∈ sig.ret :: sig.params, type.Shallow) :
    Interned t t' fun table =>
      (SignatureReader.method table).Refuses 0 bytes (.recursionLimit maxDepth) := by
  obtain ⟨count, counted, h⟩ := run_lift_bind_eq_ok.1 h
  obtain ⟨front, t₁, first, h⟩ := run_bind_eq_ok.1 h
  obtain ⟨back, t₂, others, h⟩ := run_bind_eq_ok.1 h
  obtain ⟨rfl, rfl⟩ := run_pure_eq_ok.1 h
  have enough := TypeSig.length_le_encodeList others
  have parts : Interned t t' fun table => (SignatureReader.type table >>= fun ret =>
      SignatureReader.types table sig.params.length >>= fun params =>
        pure (⟨sig.hasThis, ret, params⟩ : MethodSig)).Refuses 0 (front ++ back)
      (.recursionLimit maxDepth) := by
    refine refuses_type_bind first (spelled_types others).grows fun shallow => ?_
    have behind := refuses_types others fun all => deep (List.forall_mem_cons.2 ⟨shallow, all⟩)
    exact behind.imp fun table refused => refused.bind
  refine parts.imp fun table refused => ?_
  refine Reads.bind_refuses (s := [_]) (reads_lift (Reader.reads_uint8 _)) ?_
  have enough : sig.params.length ≤ (front ++ back).length := by
    rw [List.length_append]
    omega
  cases receiver : sig.hasThis with
  | true =>
    rw [receiver] at refused
    exact refuses_count_bind counted enough refused
  | false =>
    rw [receiver] at refused
    exact refuses_count_bind counted enough refused

/-- A field signature is refused if its type nests too deep. -/
lemma refuses_field {type : TypeSig} (h : type.encodeField t = .ok (bytes, t')) (deep : ¬ type.Shallow) :
    (SignatureReader.field table).Refuses 0 bytes (.recursionLimit maxDepth) := by
  obtain ⟨back, t₁, encoded, h⟩ := run_bind_eq_ok.1 h
  obtain ⟨rfl, rfl⟩ := run_pure_eq_ok.1 h
  refine Reads.bind_refuses (s := [ElementCode.field]) (reads_lift (Reader.reads_uint8 _)) ?_
  rw [if_neg (not_not_intro rfl)]
  exact refuses_type encoded deep

/-! ## The round trip -/

/-- A reader makes of the bytes of a signature, wherever they stand and whatever follows them, the
signature itself, and takes these bytes and no more, if each of its types has fewer than 49 addresses and
arrays around its innermost part. If one of them has more, the reader refuses the bytes. -/
def RoundTrips (r : SignatureReader α) (types : List TypeSig) (bytes : Bytes) (a : α) : Prop :=
  ∀ pos rest,
    ((∀ type ∈ types, type.nesting < 49) →
      fresh r ⟨pos, bytes ++ rest⟩ = .ok a ⟨pos + bytes.length, rest⟩)
    ∧ ((∃ type ∈ types, 49 ≤ type.nesting) →
      ∃ c, fresh r ⟨pos, bytes ++ rest⟩ = .error (.recursionLimit 50) c)

lemma roundTrips_of_shallow {types : List TypeSig}
    (read : (∀ type ∈ types, type.Shallow) → r.Reads 0 0 bytes a)
    (refused : (¬ ∀ type ∈ types, type.Shallow) → r.Refuses 0 bytes (.recursionLimit maxDepth)) :
    r.RoundTrips types bytes a := by
  intro pos rest
  refine ⟨fun shallow => reads_fresh (read shallow) pos rest, ?_⟩
  rintro ⟨type, listed, deep⟩
  exact refuses_fresh (refused fun all => Nat.not_lt_of_le deep (all type listed)) pos rest

/-- What was written for a type, for a method signature and for a field signature makes the round trip,
by the table that writing left with any more references in it. The rows in the bytes are 32-bit integers
as long as that table has fewer than 2^32 of them. -/
theorem signatures_round_trip (t : Table TypeRef) (more : List TypeRef) :
    (∀ (s : TypeSig) bytes t', s.encode t = .ok (bytes, t') →
      (type (t'.internAll more)).RoundTrips [s] bytes s)
    ∧ (∀ (s : MethodSig) bytes t', s.encode t = .ok (bytes, t') →
      (method (t'.internAll more)).RoundTrips (s.ret :: s.params) bytes s)
    ∧ (∀ (s : TypeSig) bytes t', s.encodeField t = .ok (bytes, t') →
      (field (t'.internAll more)).RoundTrips [s] bytes s) := by
  refine ⟨fun s bytes t' h => ?_, fun s bytes t' h => ?_, fun s bytes t' h => ?_⟩
  · refine roundTrips_of_shallow (fun shallow => ?_) fun deep => refuses_type h fun shallow => deep ?_
    · have shallow := List.forall_mem_singleton.1 shallow
      exact ((interned_type h shallow).holds _ (t'.prefix_internAll more)).2
    · exact List.forall_mem_singleton.2 shallow
  · refine roundTrips_of_shallow (fun shallow => ?_) fun deep => ?_
    · obtain ⟨ret, params⟩ := List.forall_mem_cons.1 shallow
      exact (interned_method h ⟨ret, params⟩).holds _ (t'.prefix_internAll more)
    · exact (refuses_method h deep).holds _ (t'.prefix_internAll more)
  · refine roundTrips_of_shallow (fun shallow => ?_) fun deep => refuses_field h fun shallow => deep ?_
    · have shallow := List.forall_mem_singleton.1 shallow
      exact (interned_field h shallow).holds _ (t'.prefix_internAll more)
    · exact List.forall_mem_singleton.2 shallow

end SignatureReader

namespace Example

open SignatureReader

/-- A bell and who rings it, the second of them in a namespace. -/
def brass : TypeRef := ⟨"hall", "", "Bell"⟩

def warden : TypeRef := ⟨"hall", "Staff", "Warden"⟩

/-- An instance method that takes bells and the address of a warden, and gives a bell. -/
def polish : MethodSig :=
  ⟨true, .refType brass, [.array (.refType brass), .byRef (.valueType warden)]⟩

/-- An integer behind 49 addresses. -/
def faraway : TypeSig :=
  Nat.repeat .byRef 49 (.prim .int32)

/-- The signature reads back from a table that has the bell twice and was given a third reference; an
integer behind 49 addresses is written and refused. -/
theorem polish_round_trips :
    polish.encode ⟨[brass, brass]⟩
        = .ok ([0x20, 2, 0x12, 1, 0x1D, 0x12, 1, 0x10, 0x11, 3], ⟨[brass, brass, warden]⟩)
      ∧ fresh (method (Table.internAll ⟨[brass, brass, warden]⟩ [⟨"yard", "", "Gate"⟩]))
          ⟨0, [0x20, 2, 0x12, 1, 0x1D, 0x12, 1, 0x10, 0x11, 3, 0xFF]⟩ = .ok polish ⟨10, [0xFF]⟩
      ∧ faraway.encodeField ⟨[]⟩ = .ok (0x06 :: (List.replicate 49 0x10 ++ [0x08]), ⟨[]⟩)
      ∧ ∃ c, fresh (field (Table.internAll ⟨[]⟩ [brass]))
          ⟨0, 0x06 :: (List.replicate 49 0x10 ++ [0x08])⟩ = .error (.recursionLimit 50) c := by
  have written : polish.encode ⟨[brass, brass]⟩
      = .ok ([0x20, 2, 0x12, 1, 0x1D, 0x12, 1, 0x10, 0x11, 3], ⟨[brass, brass, warden]⟩) := rfl
  have deep : faraway.encodeField ⟨[]⟩ = .ok (0x06 :: (List.replicate 49 0x10 ++ [0x08]), ⟨[]⟩) := rfl
  refine ⟨written, ?_, deep, ?_⟩
  · have trip := (signatures_round_trip ⟨[brass, brass]⟩ [⟨"yard", "", "Gate"⟩]).2.1 _ _ _ written
    exact (trip 0 [0xFF]).1 (by decide)
  · have trip := (signatures_round_trip ⟨[]⟩ [brass]).2.2 _ _ _ deep
    exact (trip 0 []).2 ⟨faraway, List.mem_singleton_self _, by decide⟩

end Example

end HookWeave

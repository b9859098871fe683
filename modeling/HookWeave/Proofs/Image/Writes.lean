import HookWeave.Proofs.Image.Rows

/-!
# References are written

Writing what is mentioned goes well as long as no table takes more rows than tokens can name
(`Budget`). `Building.Goes mentions x P` says that the computation `x` gives a value with the property
`P` on every builder whose rows answer mentions, and leaves such a builder; the only thing that can go
wrong is a method signature of more bytes than can be counted (`MethodSig.Refused`), and that only with
one that does not fit in tables of so many rows (`MethodSig.Fits`). The lemmas here are about
signatures, references and the tables themselves.
-/

namespace HookWeave

variable {n : Nat} {bytes : Bytes}

/-! ## Integers, strings and values in bytes of their own -/

namespace Encoding

lemma count_eq_ok (h : n ≤ maxCompressed) : ∃ bytes, count n = .ok bytes := by
  rw [count, if_pos (Nat.lt_of_le_of_lt h (by decide))]
  exact compressed_eq_ok h

lemma string_eq_ok {s : String} (h : Text.Short s) : ∃ bytes, string s = .ok bytes :=
  ⟨_, if_pos h⟩

lemma blob_eq_ok (h : bytes.length ≤ maxCompressed) : ∃ out, blob bytes = .ok out := by
  obtain ⟨front, counted⟩ := count_eq_ok h
  exact ⟨front ++ bytes, bind_eq_ok.2 ⟨front, counted, rfl⟩⟩

lemma le_of_blob {out : Bytes} (h : blob bytes = .ok out) : bytes.length ≤ maxCompressed := by
  obtain ⟨count, counted, _⟩ := bind_eq_ok.1 h
  refine Nat.le_of_not_lt fun large => ?_
  cases (compressed_of_lt large).symm.trans (Reader.compressed_of_count counted)

lemma length_compressed_le (h : compressed n = .ok bytes) : bytes.length ≤ 4 := by
  rw [length_compressed h]
  split_ifs <;> decide

end Encoding

/-! ## The number of bytes of a signature -/

lemma TypeRef.length_encode {t t' : Table TypeRef} {ref : TypeRef}
    (h : ref.encode t = .ok (bytes, t')) : bytes.length ≤ 4 := by
  obtain ⟨row, t₁, _, h⟩ := run_bind_eq_ok.1 h
  exact Encoding.length_compressed_le (run_lift_eq_ok.1 h).1

/-- A type takes a byte for each constructor and four for a row at most. -/
lemma TypeSig.length_encode {t t' : Table TypeRef} {type : TypeSig}
    (h : type.encode t = .ok (bytes, t')) : bytes.length ≤ type.nesting + 5 := by
  induction type generalizing bytes with
  | prim p =>
    obtain ⟨rfl, rfl⟩ := run_pure_eq_ok.1 h
    exact Nat.le_add_left _ _
  | refType ref | valueType ref =>
    obtain ⟨row, t₁, encoded, h⟩ := run_bind_eq_ok.1 h
    obtain ⟨rfl, rfl⟩ := run_pure_eq_ok.1 h
    exact Nat.succ_le_succ (TypeRef.length_encode encoded)
  | byRef type ih | array type ih =>
    obtain ⟨inner, t₁, encoded, h⟩ := run_bind_eq_ok.1 h
    obtain ⟨rfl, rfl⟩ := run_pure_eq_ok.1 h
    have le := ih encoded
    show inner.length + 1 ≤ type.nesting + 1 + 5
    omega

lemma TypeSig.length_encodeList {t t' : Table TypeRef} {types : List TypeSig}
    (h : encodeList types t = .ok (bytes, t')) (shallow : ∀ type ∈ types, type.Shallow) :
    bytes.length ≤ 53 * types.length := by
  induction types generalizing t bytes with
  | nil =>
    obtain ⟨rfl, rfl⟩ := run_pure_eq_ok.1 h
    exact Nat.le_refl _
  | cons type types ih =>
    obtain ⟨front, t₁, first, h⟩ := run_bind_eq_ok.1 h
    obtain ⟨back, t₂, others, h⟩ := run_bind_eq_ok.1 h
    obtain ⟨rfl, rfl⟩ := run_pure_eq_ok.1 h
    have few := ih others fun other h => shallow other (List.mem_cons_of_mem type h)
    have le := TypeSig.length_encode first
    have nesting : type.nesting < 49 := shallow type List.mem_cons_self
    rw [List.length_append, List.length_cons]
    omega

/-- A method signature takes so many bytes at most for each parameter. -/
lemma MethodSig.length_encode {t t' : Table TypeRef} {sig : MethodSig}
    (h : sig.encode t = .ok (bytes, t')) (shallow : sig.Shallow) :
    bytes.length ≤ 53 * (sig.params.length + 1) + 5 := by
  obtain ⟨count, counted, h⟩ := run_lift_bind_eq_ok.1 h
  obtain ⟨ret, t₁, returned, h⟩ := run_bind_eq_ok.1 h
  obtain ⟨params, t₂, taken, h⟩ := run_bind_eq_ok.1 h
  obtain ⟨rfl, rfl⟩ := run_pure_eq_ok.1 h
  have counted := Encoding.length_compressed_le (Reader.compressed_of_count counted)
  have returned := TypeSig.length_encode returned
  have taken := TypeSig.length_encodeList taken shallow.params
  have nesting : sig.ret.nesting < 49 := shallow.ret
  rw [List.length_cons, List.length_append, List.length_append]
  omega

/-! ## Types by name -/

namespace TypeSig

variable {t t₁ t' : Table TypeRef} {front back : Bytes}

lemma encodeList_cons {type : TypeSig} {ts : List TypeSig} (first : encode type t = .ok (front, t₁))
    (others : encodeList ts t₁ = .ok (back, t')) :
    encodeList (type :: ts) t = .ok (front ++ back, t') :=
  run_bind_eq_ok.2 ⟨front, t₁, first, run_bind_eq_ok.2 ⟨back, t', others, rfl⟩⟩

/-- Types in two parts are written one part after the other. -/
lemma encodeList_append {ts us : List TypeSig} (first : encodeList ts t = .ok (front, t₁))
    (others : encodeList us t₁ = .ok (back, t')) :
    encodeList (ts ++ us) t = .ok (front ++ back, t') := by
  induction ts generalizing t front with
  | nil =>
    obtain ⟨rfl, rfl⟩ := run_pure_eq_ok.1 first
    exact others
  | cons type ts ih =>
    obtain ⟨head, t₂, written, first⟩ := run_bind_eq_ok.1 first
    obtain ⟨tail, t₃, rest, first⟩ := run_bind_eq_ok.1 first
    obtain ⟨rfl, rfl⟩ := run_pure_eq_ok.1 first
    rw [List.append_assoc]
    exact encodeList_cons written (ih rest)

lemma encode_refType {ref : TypeRef} {row : Nat} {code : Bytes} (interned : t.intern ref = (row, t'))
    (coded : Encoding.compressed row = .ok code) :
    encode (.refType ref) t = .ok (ElementCode.refType :: code, t') := by
  have row_eq : ref.intern t = .ok (row, t') := congrArg Except.ok interned
  have encoded : ref.encode t = .ok (code, t') :=
    run_bind_eq_ok.2 ⟨row, t', row_eq, run_lift_eq_ok.2 ⟨coded, rfl⟩⟩
  exact run_bind_eq_ok.2 ⟨code, t', encoded, run_pure_eq_ok.2 ⟨rfl, rfl⟩⟩

/-- New types by name get the rows behind the last, in their order. -/
lemma encodeList_new {refs : List TypeRef} (new : (t.rows ++ refs).Nodup)
    (few : (t.rows ++ refs).length ≤ Encoding.maxCompressed) :
    ∃ bytes, encodeList (refs.map .refType) t = .ok (bytes, ⟨t.rows ++ refs⟩) := by
  induction refs generalizing t with
  | nil => exact ⟨[], run_pure_eq_ok.2 ⟨rfl, congrArg Table.mk (List.append_nil _)⟩⟩
  | cons ref refs ih =>
    have unused : ref ∉ t.rows := fun used =>
      List.disjoint_of_nodup_append new used List.mem_cons_self
    have small : t.size + 1 ≤ Encoding.maxCompressed := by
      rw [List.length_append, List.length_cons] at few
      unfold Table.size
      omega
    obtain ⟨code, coded⟩ := Encoding.compressed_eq_ok small
    have first := encode_refType (Table.intern_of_new unused) coded
    rw [List.append_cons] at new few ⊢
    obtain ⟨bytes, others⟩ := ih (t := ⟨t.rows ++ [ref]⟩) new few
    exact ⟨_, encodeList_cons first others⟩

/-- A type by name that has a row is written as this row, however often it comes. -/
lemma encodeList_replicate {ref : TypeRef} {row : Nat} {code : Bytes}
    (found : t.intern ref = (row, t)) (coded : Encoding.compressed row = .ok code) (n : Nat) :
    encodeList (List.replicate n (.refType ref)) t
      = .ok ((List.replicate n (ElementCode.refType :: code)).flatten, t) := by
  induction n with
  | zero => rfl
  | succ n ih => exact encodeList_cons (encode_refType found coded) ih

/-- A new type by name is written as the row behind the last, however often it comes. -/
lemma encodeList_replicate_new {ref : TypeRef} {code : Bytes} (new : ref ∉ t.rows)
    (coded : Encoding.compressed (t.size + 1) = .ok code) (n : Nat) :
    encodeList (List.replicate (n + 1) (.refType ref)) t
      = .ok ((List.replicate (n + 1) (ElementCode.refType :: code)).flatten, ⟨t.rows ++ [ref]⟩) := by
  have row := Table.intern_of_new new
  have found : Table.intern ⟨t.rows ++ [ref]⟩ ref = (t.size + 1, ⟨t.rows ++ [ref]⟩) := by
    have kept : Table.intern ⟨t.rows ++ [ref]⟩ ref = ((t.intern ref).1, ⟨t.rows ++ [ref]⟩) :=
      Table.intern_of_prefix (row ▸ List.prefix_refl _)
    rwa [row] at kept
  exact encodeList_cons (encode_refType row coded) (encodeList_replicate found coded n)

end TypeSig

/-! ## Method signatures that are too long -/

/-- The signature takes more bytes than can be counted, and is refused with that fault. -/
def MethodSig.Refused (s : MethodSig) (e : Fault) : Prop :=
  ∃ t t' bytes, s.encode t = .ok (bytes, t') ∧ Encoding.maxCompressed < bytes.length
    ∧ Encoding.blob bytes = .error e

/-- The signature takes no more bytes than can be counted, whatever rows its types have in a table of
that many. -/
def MethodSig.Fits (rows : Nat) (s : MethodSig) : Prop :=
  ∀ t t' bytes, s.encode t = .ok (bytes, t') → t'.size ≤ rows → bytes.length ≤ Encoding.maxCompressed

/-- A signature that is refused does not fit in all tables. -/
lemma MethodSig.Refused.unfit {s : MethodSig} {e : Fault} (h : s.Refused e) : ∃ rows, ¬ s.Fits rows := by
  obtain ⟨t, t', bytes, encoded, large, _⟩ := h
  exact ⟨t'.size, fun fits => Nat.not_le_of_lt large (fits t t' bytes encoded (Nat.le_refl _))⟩

/-- A signature fits in all tables if it does not have very many parameters. -/
lemma MethodSig.fits_of_params {s : MethodSig} {rows : Nat} (shallow : s.Shallow)
    (few : s.params.length ≤ 10000000) : s.Fits rows := by
  intro t t' bytes encoded _
  have le := length_encode encoded shallow
  unfold Encoding.maxCompressed
  omega

namespace Image

variable {α β : Type} {mentions : List Mention} {P P' : α → Prop} {Q : β → Prop}

/-- The number of type references that are mentioned, each counted once. -/
def typeRows (mentions : List Mention) : Nat :=
  ((mentions.filter (·.table? = some .typeRefs)).dedup).length

/-- The mentions can be written, and tokens can name all rows that they take. -/
structure Budget (mentions : List Mention) : Prop where
  writable : ∀ e ∈ mentions, e.Writable
  few : ∀ table, ((mentions.filter (·.table? = some table)).dedup).length ≤ Token.maxRow

/-- A row is one that tokens can name. -/
lemma Budget.row_le {b b' : Builder} {table : TableKind} {row : Nat} (budget : Budget mentions)
    (within : b'.Within mentions) (takes : b.TakesRow table row b') : row ≤ Token.maxRow := by
  obtain ⟨k, rfl, bound⟩ := takes.filled
  exact Nat.le_trans bound (Nat.le_trans (within.size_le table) (budget.few table))

namespace Building

/-! ## Computations that go well -/

/-- On a builder whose rows answer mentions the computation gives a value with the property and leaves
such a builder, unless a signature that is mentioned does not fit and is refused. -/
def Goes (mentions : List Mention) (x : Building α) (P : α → Prop) : Prop :=
  ∀ b, b.Within mentions → (∃ a b', x b = .ok (a, b') ∧ b'.Within mentions ∧ P a)
    ∨ ∃ e s, x b = .error e ∧ .signature s ∈ mentions ∧ s.Refused e ∧ ¬ s.Fits (typeRows mentions)

lemma Goes.imp {x : Building α} (h : Goes mentions x P) (weaker : ∀ a, P a → P' a) :
    Goes mentions x P' := by
  intro b within
  obtain ⟨a, b', ok, within, holds⟩ | refused := h b within
  · exact .inl ⟨a, b', ok, within, weaker a holds⟩
  · exact .inr refused

lemma Goes.pure {a : α} (h : P a) : Goes mentions (Pure.pure a) P :=
  fun b within => .inl ⟨a, b, rfl, within, h⟩

lemma Goes.lift {x : Except Fault α} (h : ∃ a, x = .ok a) :
    Goes mentions (liftM x) fun a => x = .ok a := by
  obtain ⟨a, rfl⟩ := h
  exact fun b within => .inl ⟨a, b, rfl, within, rfl⟩

lemma Goes.bind {x : Building α} {f : α → Building β} (hx : Goes mentions x P)
    (hf : ∀ a, P a → Goes mentions (f a) Q) : Goes mentions (x >>= f) Q := by
  intro b within
  obtain ⟨a, b₁, ok, within, holds⟩ | ⟨e, s, failed, refused⟩ := hx b within
  · rw [run_bind_of_ok ok]
    exact hf a holds b₁ within
  · exact .inr ⟨e, s, run_bind_of_error failed, refused⟩

/-- What comes of adding type references comes of it on some table, which gets no more rows than there
are type references. -/
lemma Goes.source {x : Interning α} (h : Goes mentions (interning x) P) :
    Goes mentions (interning x) fun a =>
      P a ∧ ∃ t t', x t = .ok (a, t') ∧ t'.size ≤ typeRows mentions := by
  intro b within
  obtain ⟨a, b', ok, within, holds⟩ | refused := h b within
  · obtain ⟨⟨_, t'⟩, added, same⟩ := bind_eq_ok.1 ok
    cases same
    exact .inl ⟨_, _, ok, within, holds, b.typeRefs, t', added, within.size_le .typeRefs⟩
  · exact .inr refused

/-! ## Types and signatures -/

lemma goes_typeRef {t : TypeRef} (budget : Budget mentions) (listed : .typeRef t ∈ mentions) :
    Goes mentions (interning t.encode) fun _ => True := by
  have row : Goes mentions (typeRefRow t) (· ≤ Token.maxRow) := by
    intro b within
    obtain ⟨row, b', ok, takes⟩ := typeRefRow_takesRow t b
    obtain ⟨grows, answers⟩ := settles_typeRefRow t b row b' ok
    have within := within.of_takesRow grows listed rfl takes answers
    exact .inl ⟨row, b', ok, within, budget.row_le within takes⟩
  rw [interning_encodeRef]
  refine row.bind fun row small => (Goes.lift ?_).imp fun _ _ => trivial
  exact Encoding.compressed_eq_ok (Nat.le_trans small (by decide))

lemma goes_typeRef? {t : Option TypeRef} (budget : Budget mentions)
    (listed : ∀ ref ∈ t, .typeRef ref ∈ mentions) :
    Goes mentions (interning (TypeRef.encodeOption t)) fun _ => True := by
  cases t with
  | some ref => exact goes_typeRef budget (listed ref rfl)
  | none =>
    rw [TypeRef.encodeOption, interning_lift]
    exact (Goes.lift ⟨_, rfl⟩).imp fun _ _ => trivial

lemma goes_type {t : TypeSig} (budget : Budget mentions) (listed : t.mentions ⊆ mentions) :
    Goes mentions (interning t.encode) fun _ => True := by
  induction t with
  | prim p => exact .pure trivial
  | refType t | valueType t =>
    rw [TypeSig.encode, interning_bind]
    exact (goes_typeRef budget (listed (List.mem_singleton.2 rfl))).bind fun _ _ => .pure trivial
  | byRef t ih | array t ih =>
    rw [TypeSig.encode, interning_bind]
    exact (ih listed).bind fun _ _ => .pure trivial

lemma goes_types {ts : List TypeSig} (budget : Budget mentions)
    (listed : ∀ t ∈ ts, t.mentions ⊆ mentions) :
    Goes mentions (interning (TypeSig.encodeList ts)) fun _ => True := by
  induction ts with
  | nil => exact .pure trivial
  | cons t ts ih =>
    obtain ⟨first, others⟩ := List.forall_mem_cons.1 listed
    rw [TypeSig.encodeList, interning_bind]
    refine (goes_type budget first).bind fun front _ => ?_
    rw [interning_bind]
    exact (ih others).bind fun back _ => .pure trivial

/-- A method signature is written, to some bytes. -/
lemma goes_signature {s : MethodSig} (budget : Budget mentions) (listed : s.mentions ⊆ mentions) :
    Goes mentions (interning s.encode) fun bytes =>
      ∃ t t', s.encode t = .ok (bytes, t') ∧ t'.size ≤ typeRows mentions := by
  obtain ⟨mentioned, types⟩ := List.cons_subset.1 listed
  obtain ⟨ret, params⟩ := List.append_subset.1 types
  have goes : Goes mentions (interning s.encode) fun _ => True := by
    rw [MethodSig.encode, interning_bind, interning_lift]
    have counted := Encoding.count_eq_ok (budget.writable _ mentioned).1
    refine (Goes.lift counted).bind fun count _ => ?_
    rw [interning_bind]
    refine (goes_type budget ret).bind fun ret _ => ?_
    rw [interning_bind]
    refine (goes_types budget fun t ht => ?_).bind fun params _ => .pure trivial
    exact fun e he => params (List.mem_flatMap.2 ⟨t, ht, he⟩)
  exact goes.source.imp fun _ => And.right

/-- The bytes of a signature are counted, or the signature is refused. -/
lemma goes_blob {s : MethodSig} {bytes : Bytes} (listed : .signature s ∈ mentions)
    (encoded : ∃ t t', s.encode t = .ok (bytes, t') ∧ t'.size ≤ typeRows mentions) :
    Goes mentions (liftM (Encoding.blob bytes)) fun _ => True := by
  intro b within
  obtain ⟨t, t', encoded, few⟩ := encoded
  cases boxed : Encoding.blob bytes with
  | ok out => exact .inl ⟨out, b, rfl, within, trivial⟩
  | error e =>
    have large : Encoding.maxCompressed < bytes.length := by
      refine Nat.lt_of_not_le fun small => ?_
      obtain ⟨out, ok⟩ := Encoding.blob_eq_ok small
      rw [ok] at boxed
      cases boxed
    refine .inr ⟨e, s, rfl, listed, ⟨t, t', bytes, encoded, large, boxed⟩, fun fits => ?_⟩
    exact Nat.not_le_of_lt large (fits t t' bytes encoded few)

/-- The signature of a field is written, to few bytes. -/
lemma goes_fieldSig {t : TypeSig} (budget : Budget mentions) (listed : t.mentions ⊆ mentions)
    (shallow : t.Shallow) :
    Goes mentions (interning t.encodeField) fun bytes => bytes.length ≤ Encoding.maxCompressed := by
  rw [TypeSig.encodeField, interning_bind]
  refine (goes_type budget listed).source.bind fun bytes written => .pure ?_
  obtain ⟨_, s, s', encoded, _⟩ := written
  have le := TypeSig.length_encode encoded
  have nesting : t.nesting < 49 := shallow
  unfold Encoding.maxCompressed
  rw [List.length_cons]
  omega

/-! ## References -/

/-- The parts of a member reference are written, and its row is taken. -/
lemma goes_member {r : Reference} {kind : MemberKind} {owner : TypeRef} {name : String}
    {S : Bytes → Prop} (sig : Building Bytes) (budget : Budget mentions)
    (whole : rowOf r = sig >>= member kind owner name) (listed : .reference r ∈ mentions)
    (table : (Mention.reference r).table? = some .members) (owned : .typeRef owner ∈ mentions)
    (named : Text.Short name) (signed : Goes mentions sig S)
    (boxed : ∀ bytes, S bytes → Goes mentions (liftM (Encoding.blob bytes)) fun _ => True) :
    Goes mentions (rowOf r) (· ≤ Token.maxRow) := by
  intro b within
  -- All but the row itself: what is known of the row depends on the whole request.
  have parts : Goes mentions (sig >>= fun sig => do
      let owner ← interning owner.encode
      let name ← Encoding.string name
      let sig ← Encoding.blob sig
      pure (kind.code :: (owner ++ (name ++ sig)))) fun _ => True := by
    refine signed.bind fun bytes good => (goes_typeRef budget owned).bind fun owner _ => ?_
    refine (Goes.lift (Encoding.string_eq_ok named)).bind fun text _ => ?_
    exact (boxed bytes good).bind fun sig _ => .pure trivial
  have split : rowOf r = (sig >>= fun sig => do
      let owner ← interning owner.encode
      let name ← Encoding.string name
      let sig ← Encoding.blob sig
      pure (kind.code :: (owner ++ (name ++ sig)))) >>= memberRow := by
    rw [whole]
    simp only [bind_assoc, pure_bind]
    rfl
  obtain ⟨bytes, b₁, ok, within, _⟩ | ⟨e, s, failed, refused⟩ := parts b within
  · obtain ⟨row, b', taken, takes⟩ := memberRow_takesRow bytes b₁
    have ok : rowOf r b = .ok (row, b') := by
      rw [split]
      exact run_bind_eq_ok.2 ⟨bytes, b₁, ok, taken⟩
    have within := within.of_takesRow (settles_memberRow bytes b₁ row b' taken).1 listed table takes
      (settles_rowOf r b row b' ok).2
    exact .inl ⟨row, b', ok, within, budget.row_le within takes⟩
  · refine .inr ⟨e, s, ?_, refused⟩
    rw [split]
    exact run_bind_of_error failed

/-- Every reference that is mentioned with all that it mentions has a row. -/
lemma goes_rowOf {r : Reference} (budget : Budget mentions) (listed : r.mentions ⊆ mentions) :
    Goes mentions (rowOf r) (· ≤ Token.maxRow) := by
  cases r with
  | method m =>
    obtain ⟨self, parts⟩ := List.cons_subset.1 listed
    obtain ⟨owner, sig⟩ := List.cons_subset.1 parts
    refine goes_member (interning m.sig.encode) budget rfl self rfl owner
      (budget.writable _ self) (goes_signature budget sig) fun bytes encoded => ?_
    exact goes_blob (List.cons_subset.1 sig).1 encoded
  | field f =>
    obtain ⟨self, parts⟩ := List.cons_subset.1 listed
    obtain ⟨owner, type⟩ := List.cons_subset.1 parts
    obtain ⟨named, shallow⟩ := budget.writable _ self
    refine goes_member (interning f.type.encodeField) budget rfl self rfl owner named
      (goes_fieldSig budget type shallow) fun bytes small => ?_
    exact (Goes.lift (Encoding.blob_eq_ok small)).imp fun _ _ => trivial
  | type t =>
    obtain ⟨self, parts⟩ := List.cons_subset.1 listed
    intro b within
    obtain ⟨bytes, b₁, ok, within, _⟩ | ⟨e, s, failed, refused⟩ := goes_type budget parts b within
    · obtain ⟨row, b', taken, takes⟩ := typeSpecRow_takesRow bytes b₁
      have ok : rowOf (.type t) b = .ok (row, b') := run_bind_eq_ok.2 ⟨bytes, b₁, ok, taken⟩
      have within := within.of_takesRow (settles_typeSpecRow bytes b₁ row b' taken).1 self rfl takes
        (settles_rowOf _ b row b' ok).2
      exact .inl ⟨row, b', ok, within, budget.row_le within takes⟩
    · exact .inr ⟨e, s, run_bind_of_error failed, refused⟩
  | string text =>
    intro b within
    obtain ⟨row, b', ok, takes⟩ := stringRow_takesRow text b
    obtain ⟨grows, answers⟩ := settles_rowOf (.string text) b row b' ok
    have within := within.of_takesRow grows (listed (List.mem_singleton.2 rfl)) rfl takes answers
    exact .inl ⟨row, b', ok, within, budget.row_le within takes⟩

/-- Every such reference gets a token. -/
lemma goes_request {r : Reference} (budget : Budget mentions) (listed : r.mentions ⊆ mentions) :
    Goes mentions (allocator.request r) fun _ => True := by
  rw [request_eq]
  refine (goes_rowOf budget listed).bind fun row small => ?_
  exact (Goes.lift ⟨_, if_pos small⟩).imp fun _ _ => trivial

/-! ## Lists -/

lemma goes_writeConcat {write : α → Building Bytes} {as : List α}
    (each : ∀ a ∈ as, Goes mentions (write a) fun _ => True) :
    Goes mentions (writeConcat write as) fun _ => True := by
  induction as with
  | nil => exact .pure trivial
  | cons a as ih =>
    obtain ⟨first, others⟩ := List.forall_mem_cons.1 each
    exact first.bind fun front _ => (ih others).bind fun back _ => .pure trivial

/-- A list is written if it can be counted and its elements can be written. -/
lemma goes_writeList {write : α → Building Bytes} {as : List α}
    (h : Countable (fun a => Goes mentions (write a) fun _ => True) as) :
    Goes mentions (writeList write as) fun _ => True :=
  (Goes.lift (Encoding.count_eq_ok h.1)).bind fun _ _ =>
    (goes_writeConcat h.2).bind fun _ _ => .pure trivial

end Building

/-! ## The tables themselves -/

lemma writeConcat_isOk {write : α → Except Fault Bytes} {as : List α}
    (each : ∀ a ∈ as, ∃ out, write a = .ok out) : ∃ bytes, writeConcat write as = .ok bytes := by
  induction as with
  | nil => exact ⟨[], rfl⟩
  | cons a as ih =>
    obtain ⟨⟨front, first⟩, others⟩ := List.forall_mem_cons.1 each
    obtain ⟨back, written⟩ := ih others
    exact ⟨front ++ back, bind_eq_ok.2 ⟨front, first, bind_eq_ok.2 ⟨back, written, rfl⟩⟩⟩

lemma writeList_isOk {f : α → Except Fault Bytes} {as : List α}
    (h : Countable (fun a => ∃ out, f a = .ok out) as) :
    ∃ bytes, writeList f as = .ok bytes := by
  obtain ⟨count, counted⟩ := Encoding.count_eq_ok h.1
  obtain ⟨elements, written⟩ := writeConcat_isOk h.2
  exact ⟨count ++ elements, bind_eq_ok.2 ⟨count, counted, bind_eq_ok.2 ⟨elements, written, rfl⟩⟩⟩

/-- Elements that need no tables are written as such a list. -/
lemma Building.writeList_lift {f : α → Except Fault Bytes} {as : List α} {bytes : Bytes}
    (h : Image.writeList f as = .ok bytes) (b : Builder) :
    writeList (fun a => liftM (f a)) as b = .ok (bytes, b) := by
  have elements : ∀ {as : List α} {bytes : Bytes}, Image.writeConcat f as = .ok bytes →
      writeConcat (fun a => liftM (f a)) as b = .ok (bytes, b) := by
    intro as
    induction as with
    | nil =>
      rintro _ ⟨⟩
      rfl
    | cons a as ih =>
      intro bytes h
      obtain ⟨front, first, h⟩ := bind_eq_ok.1 h
      obtain ⟨back, others, h⟩ := bind_eq_ok.1 h
      cases h
      exact run_lift_bind_eq_ok.2 ⟨front, first, run_bind_eq_ok.2 ⟨back, b, ih others, rfl⟩⟩
  obtain ⟨count, counted, h⟩ := bind_eq_ok.1 h
  obtain ⟨pieces, written, h⟩ := bind_eq_ok.1 h
  cases h
  exact run_lift_bind_eq_ok.2 ⟨count, counted, run_bind_eq_ok.2 ⟨pieces, b, elements written, rfl⟩⟩

lemma writeTypeRef_isOk {t : TypeRef} (h : (Mention.typeRef t).Writable) :
    ∃ bytes, writeTypeRef t = .ok bytes := by
  obtain ⟨scope, space, name⟩ := h
  obtain ⟨first, scope⟩ := Encoding.string_eq_ok scope
  obtain ⟨second, space⟩ := Encoding.string_eq_ok space
  obtain ⟨third, name⟩ := Encoding.string_eq_ok name
  exact ⟨_, bind_eq_ok.2 ⟨first, scope, bind_eq_ok.2 ⟨second, space,
    bind_eq_ok.2 ⟨third, name, rfl⟩⟩⟩⟩

namespace Builder

variable {b : Builder}

lemma Within.string_mem {s : String} (h : b.Within mentions) (hs : s ∈ b.strings.rows) :
    .reference (.string s) ∈ mentions := by
  obtain ⟨k, hk⟩ := List.mem_iff_getElem?.1 hs
  obtain ⟨e, listed, kind, answers⟩ := h .strings k (List.getElem?_eq_some_iff.1 hk).1
  match e, kind with
  | .reference (.string text), _ =>
    have asked := Except.ok.inj ((Building.stringRow_eq text b).symm.trans (answers b (.refl b)))
    have found := Table.getElem?_of_intern (congrArg Prod.fst asked)
      (congrArg (fun p => p.2.strings) asked)
    cases hk.symm.trans found
    exact listed

lemma Within.typeRef_mem {t : TypeRef} (h : b.Within mentions) (ht : t ∈ b.typeRefs.rows) :
    .typeRef t ∈ mentions := by
  obtain ⟨k, hk⟩ := List.mem_iff_getElem?.1 ht
  obtain ⟨e, listed, kind, answers⟩ := h .typeRefs k (List.getElem?_eq_some_iff.1 hk).1
  match e, kind with
  | .typeRef ref, _ =>
    have asked := Except.ok.inj ((Building.typeRefRow_eq ref b).symm.trans (answers b (.refl b)))
    have found := Table.getElem?_of_intern (congrArg Prod.fst asked)
      (congrArg (fun p => p.2.typeRefs) asked)
    cases hk.symm.trans found
    exact listed

/-- A type specification is what a type that is mentioned was written as. -/
lemma Within.typeSpec_mem {bytes : Bytes} (h : b.Within mentions)
    (hbytes : bytes ∈ b.typeSpecs.rows) :
    ∃ t s s', .reference (.type t) ∈ mentions ∧ TypeSig.encode t s = .ok (bytes, s') := by
  obtain ⟨k, hk⟩ := List.mem_iff_getElem?.1 hbytes
  obtain ⟨e, listed, kind, answers⟩ := h .typeSpecs k (List.getElem?_eq_some_iff.1 hk).1
  match e, kind with
  | .reference (.type type), _ =>
    obtain ⟨spec, b₁, interned, taken⟩ := run_bind_eq_ok.1 (answers b (.refl b))
    obtain ⟨⟨_, s'⟩, encoded, same⟩ := bind_eq_ok.1 interned
    cases same
    have asked := Except.ok.inj ((Building.typeSpecRow_eq spec _).symm.trans taken)
    have found := Table.getElem?_of_intern (congrArg Prod.fst asked)
      (congrArg (fun p => p.2.typeSpecs) asked)
    cases hk.symm.trans found
    exact ⟨type, b.typeRefs, s', listed, encoded⟩

/-- The tables of a builder whose rows answer mentions are written. -/
lemma Within.encode_isOk (h : b.Within mentions) (budget : Budget mentions) :
    ∃ bytes, b.encode = .ok bytes := by
  have few : ∀ table, b.size table ≤ Encoding.maxCompressed := fun table =>
    Nat.le_trans (h.size_le table) (Nat.le_trans (budget.few table) (by decide))
  obtain ⟨strings, written⟩ := writeList_isOk ⟨few .strings, fun s hs =>
    Encoding.string_eq_ok (budget.writable _ (h.string_mem hs))⟩
  obtain ⟨typeRefs, referred⟩ := writeList_isOk ⟨few .typeRefs, fun t ht =>
    writeTypeRef_isOk (budget.writable _ (h.typeRef_mem ht))⟩
  have specs : ∀ bytes ∈ b.typeSpecs.rows, ∃ out, Encoding.blob bytes = .ok out := by
    intro bytes hbytes
    obtain ⟨t, s, s', listed, encoded⟩ := h.typeSpec_mem hbytes
    have le := TypeSig.length_encode encoded
    have nesting : t.nesting < 49 := budget.writable _ listed
    exact Encoding.blob_eq_ok (by unfold Encoding.maxCompressed; omega)
  obtain ⟨typeSpecs, specified⟩ := writeList_isOk ⟨few .typeSpecs, specs⟩
  have rows : Countable (fun bytes => ∃ out, (pure bytes : Except Fault Bytes) = .ok out)
      b.members.rows := ⟨few .members, fun bytes _ => ⟨bytes, rfl⟩⟩
  obtain ⟨members, listed⟩ := writeList_isOk rows
  exact ⟨_, bind_eq_ok.2 ⟨strings, written, bind_eq_ok.2 ⟨typeRefs, referred,
    bind_eq_ok.2 ⟨typeSpecs, specified, bind_eq_ok.2 ⟨members, listed, rfl⟩⟩⟩⟩⟩

end Builder

end Image

end HookWeave

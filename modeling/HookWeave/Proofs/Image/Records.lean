import HookWeave.Proofs.Image.Rows
import HookWeave.Proofs.Image.Tables
import HookWeave.Proofs.Signature.Finds

/-!
# What the tables of an image are found to be

`Tables.Records` says that the rows of a reader's tables are what the reader made of the rows of a
builder. It follows from the tables being read at all (`finds_read`), while `Tables.Represents` takes
for granted that no row is refused. `Entails b b' P` says that writing took the builder `b` to `b'` and
made `P` true of all tables that record `b'` or more: a reference that is written gets a row that is
found to be nothing but this reference (`entails_request`).
-/

namespace HookWeave
namespace Image

/-! ## Builders and what their rows were read as -/

/-- Every member reference of a builder is found to be one member, whatever is added to the table of
type references. -/
def Builder.Definite (b : Builder) : Prop :=
  ∀ bytes ∈ b.members.rows, ∃ m, ∀ table : Table TypeRef, b.typeRefs.rows <+: table.rows →
    (Tables.readMember table).Finds bytes (· = m)

/-- Tables of a reader hold what the reader made of the rows of a builder. -/
structure Tables.Records (tables : Tables) (b : Builder) : Prop where
  strings : b.strings.rows <+: tables.strings
  typeRefs : b.typeRefs.rows <+: tables.typeRefs.rows
  typeSpecs : ∀ (k : Nat) (bytes : Bytes), b.typeSpecs.rows[k]? = some bytes →
    ∃ type, tables.typeSpecs[k]? = some type
      ∧ (SignatureReader.type tables.typeRefs).fresh.Gave bytes type
  members : ∀ (k : Nat) (bytes : Bytes), b.members.rows[k]? = some bytes →
    ∃ m, tables.members[k]? = some m ∧ (readMember tables.typeRefs).Gave bytes m

variable {b b₁ b' : Builder} {tables : Tables} {bytes out : Bytes}

/-- Tables that hold what was made of a builder hold what was made of it before it grew. -/
lemma Tables.Records.of_grows (h : tables.Records b') (grows : b.Grows b') : tables.Records b where
  strings := grows.strings.trans h.strings
  typeRefs := grows.typeRefs.trans h.typeRefs
  typeSpecs k bytes hk := h.typeSpecs k bytes (Table.getElem?_of_prefix grows.typeSpecs hk)
  members k bytes hk := h.members k bytes (Table.getElem?_of_prefix grows.members hk)

/-- Writing took a builder from `b` to `b'` and made `P` true of all tables that hold what a reader
makes of `b'`. -/
structure Entails (b b' : Builder) (P : Tables → Prop) : Prop where
  grows : b.Grows b'
  definite : b.Definite → b'.Definite
  holds : ∀ tables : Tables, tables.Records b' → P tables

namespace Entails

variable {P Q : Tables → Prop}

lemma refl (h : ∀ tables, P tables) : Entails b b P :=
  ⟨.refl b, id, fun tables _ => h tables⟩

/-- What is true after the first of two steps stays true after the second. -/
lemma and (h : Entails b b₁ P) (h' : Entails b₁ b' Q) :
    Entails b b' fun tables => P tables ∧ Q tables where
  grows := h.grows.trans h'.grows
  definite := h'.definite ∘ h.definite
  holds tables records :=
    ⟨h.holds tables (records.of_grows h'.grows), h'.holds tables records⟩

lemma imp (h : Entails b b' P) (weaker : ∀ tables, P tables → Q tables) : Entails b b' Q :=
  ⟨h.grows, h.definite, fun tables records => weaker tables (h.holds tables records)⟩

end Entails

/-! ## Rows -/

namespace Building

variable {α : Type} {a : α} {row : Nat}

/-- Adding type references entails what is true of all tables that come of it. -/
lemma entails_interning {x : Interning α} {P : Table TypeRef → Prop}
    (h : interning x b = .ok (a, b'))
    (hx : ∀ t', x b.typeRefs = .ok (a, t') → Interned b.typeRefs t' P) :
    Entails b b' fun tables => P tables.typeRefs := by
  obtain ⟨⟨_, t'⟩, added, e⟩ := bind_eq_ok.1 h
  cases e
  have interned := hx t' added
  refine ⟨⟨List.prefix_refl _, interned.grows, List.prefix_refl _, List.prefix_refl _⟩, ?_, ?_⟩
  · intro definite bytes listed
    obtain ⟨m, finds⟩ := definite bytes listed
    exact ⟨m, fun table later => finds table (interned.grows.trans later)⟩
  · intro tables records
    exact interned.holds tables.typeRefs records.typeRefs

/-- A string gets a row. -/
lemma entails_stringRow {text : String} (h : stringRow text b = .ok (row, b')) :
    Entails b b' fun tables => ∃ k, row = k + 1 ∧ tables.strings[k]? = some text := by
  rw [stringRow_eq] at h
  cases h
  obtain ⟨grows, k, same, found⟩ := Table.grows_intern (t := b.strings) (a := text) rfl
  refine ⟨⟨grows, List.prefix_refl _, List.prefix_refl _, List.prefix_refl _⟩, id, ?_⟩
  intro tables records
  exact ⟨k, same, Table.getElem?_of_prefix records.strings found⟩

/-- A type specification that is found to be one type gets a row for that type. -/
lemma entails_typeSpecRow {type : TypeSig} (h : typeSpecRow bytes b = .ok (row, b'))
    (finds : ∀ table : Table TypeRef, b.typeRefs.rows <+: table.rows →
      (SignatureReader.type table).fresh.Finds bytes (· = type)) :
    Entails b b' fun tables => ∃ k, row = k + 1 ∧ tables.typeSpecs[k]? = some type := by
  rw [typeSpecRow_eq] at h
  cases h
  obtain ⟨grows, k, same, found⟩ := Table.grows_intern (t := b.typeSpecs) (a := bytes) rfl
  refine ⟨⟨List.prefix_refl _, List.prefix_refl _, grows, List.prefix_refl _⟩, id, ?_⟩
  intro tables records
  obtain ⟨type', listed, gave⟩ := records.typeSpecs k bytes found
  cases (finds tables.typeRefs records.typeRefs).of_gave gave
  exact ⟨k, same, listed⟩

/-- A member reference that is found to be one member gets a row for that member. -/
lemma entails_memberRow {m : MemberRef} (h : memberRow bytes b = .ok (row, b'))
    (finds : ∀ table : Table TypeRef, b.typeRefs.rows <+: table.rows →
      (Tables.readMember table).Finds bytes (· = m)) :
    Entails b b' fun tables => ∃ k, row = k + 1 ∧ tables.members[k]? = some m := by
  rw [memberRow_eq] at h
  cases h
  obtain ⟨grows, k, same, found⟩ := Table.grows_intern (t := b.members) (a := bytes) rfl
  refine ⟨⟨List.prefix_refl _, List.prefix_refl _, List.prefix_refl _, grows⟩, ?_, ?_⟩
  · intro definite out listed
    have interned : b.members.intern bytes
        = ((b.members.intern bytes).1, (b.members.intern bytes).2) := rfl
    cases mem_intern interned listed with
    | inl old => exact definite out old
    | inr new =>
      cases new
      exact ⟨m, finds⟩
  · intro tables records
    obtain ⟨m', listed, gave⟩ := records.members k bytes found
    cases (finds tables.typeRefs records.typeRefs).of_gave gave
    exact ⟨k, same, listed⟩

/-! ## References -/

/-- A member reference gets a row for what its signature is found to be. -/
lemma entails_member {kind : MemberKind} {owner : TypeRef} {name : String} {m : MemberRef}
    (h : member kind owner name bytes b = .ok (row, b'))
    (finds : ∀ table : Table TypeRef, b.typeRefs.rows <+: table.rows →
      (Tables.readMemberSig table kind.code owner name).Finds bytes (· = m)) :
    Entails b b' fun tables => ∃ k, row = k + 1 ∧ tables.members[k]? = some m := by
  obtain ⟨ownerRow, b₁, interned, h⟩ := run_bind_eq_ok.1 h
  obtain ⟨text, named, h⟩ := run_lift_bind_eq_ok.1 h
  obtain ⟨sig, boxed, h⟩ := run_lift_bind_eq_ok.1 h
  have grown := entails_interning interned fun _ h => interned_typeRef h
  refine (grown.and (entails_memberRow h fun table later => ?_)).imp fun _ => And.right
  have owner_reads := (holds_of_interning interned (fun _ h => interned_typeRef h) later).2
  refine Reader.Reads.bind_finds (s := [kind.code]) (Reader.reads_uint8 _) ?_
  refine (Table.reads_readTypeRef owner_reads).bind_finds ?_
  refine (Reader.reads_string named).bind_finds ?_
  exact (Reader.finds_blob boxed).imp fun m' gave =>
    (finds table (grown.grows.typeRefs.trans later)).of_gave gave

/-- A method reference gets a row. -/
lemma entails_method {m : MethodRef} (h : method m b = .ok (row, b')) :
    Entails b b' fun tables => ∃ k, row = k + 1 ∧ tables.members[k]? = some (.method m) := by
  obtain ⟨sig, b₁, interned, h⟩ := run_bind_eq_ok.1 h
  have found := fun t' (h : m.sig.encode b.typeRefs = .ok (sig, t')) =>
    SignatureReader.found_method h
  have grown := entails_interning interned found
  refine (grown.and (entails_member h fun table later => ?_)).imp fun _ => And.right
  refine (SignatureReader.finds_fresh (holds_of_interning interned found later)).map ?_
  exact fun sig same => congrArg (fun sig => MemberRef.method ⟨m.owner, m.name, sig⟩) same

/-- A field reference gets a row. -/
lemma entails_field {f : FieldRef} (h : field f b = .ok (row, b')) :
    Entails b b' fun tables => ∃ k, row = k + 1 ∧ tables.members[k]? = some (.field f) := by
  obtain ⟨sig, b₁, interned, h⟩ := run_bind_eq_ok.1 h
  have found := fun t' (h : f.type.encodeField b.typeRefs = .ok (sig, t')) =>
    SignatureReader.found_field h
  have grown := entails_interning interned found
  refine (grown.and (entails_member h fun table later => ?_)).imp fun _ => And.right
  refine (SignatureReader.finds_fresh (holds_of_interning interned found later)).map ?_
  exact fun type same => congrArg (fun type => MemberRef.field ⟨f.owner, f.name, type⟩) same

/-- Every reference gets a row. -/
lemma entails_rowOf {r : Reference} (h : rowOf r b = .ok (row, b')) :
    Entails b b' fun tables => ∃ k, row = k + 1 ∧ tables.HasAt k r := by
  cases r with
  | method m => exact entails_method h
  | field f => exact entails_field h
  | type t =>
    obtain ⟨bytes, b₁, interned, written⟩ := run_bind_eq_ok.1 h
    have found := fun t' (h : t.encode b.typeRefs = .ok (bytes, t')) =>
      SignatureReader.found_type h
    have grown := entails_interning interned found
    have specified := entails_typeSpecRow written fun table later =>
      SignatureReader.finds_fresh (holds_of_interning interned found later)
    exact (grown.and specified).imp fun _ => And.right
  | string text => exact entails_stringRow h

/-! ## Tokens -/

/-- The token that a reference gets is resolved to the reference. -/
lemma entails_request {r : Reference} {token : Token}
    (h : allocator.request r b = .ok (token, b')) :
    Entails b b' fun tables => tables.resolver.Resolves token r := by
  rw [request_eq] at h
  obtain ⟨row, b₁, written, rest⟩ := run_bind_eq_ok.1 h
  obtain ⟨made, rfl⟩ := run_lift_eq_ok.1 rest
  refine (entails_rowOf written).imp fun tables ⟨k, same, found⟩ => ?_
  rw [same] at made
  exact resolves_of_hasAt made found

/-- The tokens of all references are resolved to them. -/
lemma entails_answers {rs : List Reference} {answered : Answers}
    (h : allocator.answers rs b = .ok (answered, b')) :
    Entails b b' fun tables => tables.resolver.Inverts answered := by
  induction rs generalizing b answered with
  | nil =>
    obtain ⟨rfl, rfl⟩ := run_pure_eq_ok.1 h
    exact .refl fun _ a ha => nomatch ha
  | cons r rs ih =>
    obtain ⟨token, b₁, asked, h⟩ := run_bind_eq_ok.1 h
    obtain ⟨rest, b₂, others, h⟩ := run_bind_eq_ok.1 h
    obtain ⟨rfl, rfl⟩ := run_pure_eq_ok.1 h
    refine ((entails_request asked).and (ih others)).imp fun tables ⟨resolves, inverts⟩ => ?_
    exact List.forall_mem_cons.2 ⟨resolves, inverts⟩

end Building

/-! ## The tables read -/

/-- A list that is written without tables is found to be what each of its elements is found to be. -/
lemma finds_writeList {α β : Type} {write : α → Except Fault Bytes} {r : Reader β}
    {R : α → β → Prop} {as : List α} (h : writeList write as = .ok bytes)
    (each : ∀ a ∈ as, ∀ out, write a = .ok out → r.Finds out (R a)) :
    (Reader.list r).Finds bytes (List.Forall₂ R as) := by
  obtain ⟨count, counted, h⟩ := bind_eq_ok.1 h
  obtain ⟨elements, written, h⟩ := bind_eq_ok.1 h
  cases h
  obtain ⟨pieces, apart, rfl⟩ := writeConcat_eq_ok written
  refine Reader.finds_list counted ?_
  exact ((List.forall₂_and_left _ _).2 ⟨each, apart⟩).imp fun _ out h => h.1 out h.2

/-- What is read from the tables that a builder encodes holds what was made of its rows. -/
lemma finds_read (h : b.encode = .ok bytes) (definite : b.Definite) :
    Tables.read.Finds bytes (·.Records b) := by
  obtain ⟨strings, written, h⟩ := bind_eq_ok.1 h
  obtain ⟨typeRefs, referred, h⟩ := bind_eq_ok.1 h
  obtain ⟨typeSpecs, specified, h⟩ := bind_eq_ok.1 h
  obtain ⟨members, listed, h⟩ := bind_eq_ok.1 h
  cases h
  refine (reads_writeList_eq written fun _ _ _ h =>
    ⟨Reader.string_ne_nil h, Reader.reads_string h⟩).bind_finds ?_
  refine (reads_writeList_eq referred fun _ _ _ h => reads_writeTypeRef h).bind_finds ?_
  refine (finds_writeList specified fun spec _ out boxed => Reader.finds_blob boxed).bind
    fun types typed => ?_
  have members_found : (Reader.list (Tables.readMember b.typeRefs)).Finds members
      (List.Forall₂ (Tables.readMember b.typeRefs).Gave b.members.rows) := by
    refine finds_writeList listed fun member hmember out same => ?_
    cases same
    obtain ⟨m, finds⟩ := definite member hmember
    exact (finds b.typeRefs (List.prefix_refl _)).gave
  refine members_found.bind_nil fun ms named => .pure ?_
  exact ⟨List.prefix_refl _, List.prefix_refl _, fun _ _ hk => forall₂_getElem? typed hk,
    fun _ _ hk => forall₂_getElem? named hk⟩

end Image
end HookWeave

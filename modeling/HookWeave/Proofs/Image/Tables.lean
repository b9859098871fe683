import HookWeave.Image.Reading
import HookWeave.Image.Writing
import HookWeave.Proofs.Code.Answers
import HookWeave.Proofs.Signature.Codec

/-!
# The tables of an image

While definitions are written, four tables collect what they refer to. `Tables.Represents` says that
the tables of a reader hold what the rows of a builder stand for; it is stable under taking rows
away (`Represents.of_grows`), so what is read by a row once is read by it for good. `Yields b b' P`
says that writing took the builder `b` to `b'` and made `P` true of all tables that represent `b'`
or more. The rows of a builder can always be read (`Builder.Sound`), and the tables that are read
from what a builder encodes represent it (`represents_of_encode`).
-/

namespace HookWeave

namespace Reader

variable {α : Type} {r : Reader α} {a : α} {bytes out : Bytes}

/-- A value in bytes of its own reads back. -/
lemma reads_blob {what : String} (h : Encoding.blob bytes = .ok out) (hr : r.Reads bytes a) :
    (blob what r).Reads out a := by
  obtain ⟨count, counted, h⟩ := bind_eq_ok.1 h
  cases h
  refine fun _ => ?_
  refine readsAt_count_bind counted (Nat.le_refl _) ?_
  refine (reads_take bytes _).bind_nil ?_
  have inner : r.run (.start bytes) = .ok a ⟨0 + bytes.length, []⟩ := by
    have h := hr 0 []
    rw [List.append_nil] at h
    exact h
  simp only [inner]
  exact ReadsAt.pure

lemma blob_ne_nil (h : Encoding.blob bytes = .ok out) : out ≠ [] := by
  obtain ⟨count, counted, h⟩ := bind_eq_ok.1 h
  cases h
  exact List.append_ne_nil_of_left_ne_nil (compressed_ne_nil (compressed_of_count counted)) _

/-- A list reads back as a list that corresponds to it if its elements do, with a byte each. -/
lemma reads_list {β : Type} {r : Reader β} {R : α → β → Prop} {as : List α} {pieces : List Bytes}
    {count : Bytes} (h : Encoding.count as.length = .ok count)
    (each : List.Forall₂ (fun a out => out ≠ [] ∧ ∃ a', R a a' ∧ r.Reads out a') as pieces) :
    ∃ as', List.Forall₂ R as as' ∧ (list r).Reads (count ++ pieces.flatten) as' := by
  have elements : as.length ≤ pieces.flatten.length ∧ ∃ as', List.Forall₂ R as as' ∧
      (times r as.length).Reads pieces.flatten as' := by
    clear h
    induction each with
    | nil => exact ⟨Nat.le_refl _, [], .nil, reads_times_zero r⟩
    | cons first _ ih =>
      obtain ⟨filled, a', same, read⟩ := first
      obtain ⟨enough, as', others, reads⟩ := ih
      refine ⟨?_, a' :: as', .cons same others, reads_times_succ read reads⟩
      have := List.length_pos_iff.2 filled
      rw [List.length_cons, List.flatten_cons, List.length_append]
      omega
  obtain ⟨enough, as', same, reads⟩ := elements
  exact ⟨as', same, fun _ => readsAt_count_bind h enough (reads _)⟩

end Reader

/-- The types in what a reference names nest less deep than the reader admits. -/
def Reference.Shallow : Reference → Prop
  | .method m => m.sig.Shallow
  | .field f => f.type.Shallow
  | .type t => t.Shallow
  | .string _ => True

namespace Image

/-! ## Builders and what their rows stand for -/

/-- A builder has all rows of another one. -/
structure Builder.Grows (b b' : Builder) : Prop where
  strings : b.strings.rows <+: b'.strings.rows
  typeRefs : b.typeRefs.rows <+: b'.typeRefs.rows
  typeSpecs : b.typeSpecs.rows <+: b'.typeSpecs.rows
  members : b.members.rows <+: b'.members.rows

/-- The bytes of a type specification can be read with a table of type references and with every
one that comes of it. -/
def SpecSound (t : Table TypeRef) (bytes : Bytes) : Prop :=
  ∃ type, ∀ table : Table TypeRef, t.rows <+: table.rows →
    (SignatureReader.type table).fresh.Reads bytes type

/-- The bytes of a member reference can be read likewise, and there are some. -/
def MemberSound (t : Table TypeRef) (bytes : Bytes) : Prop :=
  bytes ≠ [] ∧ ∃ m, ∀ table : Table TypeRef, t.rows <+: table.rows →
    (Tables.readMember table).Reads bytes m

/-- The rows of a builder can be read. -/
structure Builder.Sound (b : Builder) : Prop where
  typeSpecs : ∀ bytes ∈ b.typeSpecs.rows, SpecSound b.typeRefs bytes
  members : ∀ bytes ∈ b.members.rows, MemberSound b.typeRefs bytes

/-- Tables of a reader hold what the rows of a builder stand for. -/
structure Tables.Represents (tables : Tables) (b : Builder) : Prop where
  strings : b.strings.rows <+: tables.strings
  typeRefs : b.typeRefs.rows <+: tables.typeRefs.rows
  typeSpecs : ∀ (k : Nat) (bytes : Bytes), b.typeSpecs.rows[k]? = some bytes →
    ∃ type, tables.typeSpecs[k]? = some type
      ∧ (SignatureReader.type tables.typeRefs).fresh.Reads bytes type
  members : ∀ (k : Nat) (bytes : Bytes), b.members.rows[k]? = some bytes →
    ∃ m, tables.members[k]? = some m ∧ (readMember tables.typeRefs).Reads bytes m

/-- The tables of a reader have the reference at an index of its table, counted from 0. -/
def Tables.HasAt (tables : Tables) (k : Nat) : Reference → Prop
  | .method m => tables.members[k]? = some (.method m)
  | .field f => tables.members[k]? = some (.field f)
  | .type t => tables.typeSpecs[k]? = some t
  | .string s => tables.strings[k]? = some s

variable {b b₁ b' : Builder} {tables : Tables} {bytes out : Bytes}

lemma Builder.Grows.refl (b : Builder) : b.Grows b :=
  ⟨List.prefix_refl _, List.prefix_refl _, List.prefix_refl _, List.prefix_refl _⟩

lemma Builder.Grows.trans (h : b.Grows b₁) (h' : b₁.Grows b') : b.Grows b' :=
  ⟨h.strings.trans h'.strings, h.typeRefs.trans h'.typeRefs, h.typeSpecs.trans h'.typeSpecs,
    h.members.trans h'.members⟩

/-- Tables that hold what a builder stands for hold what it stood for before it grew. -/
lemma Tables.Represents.of_grows (h : tables.Represents b') (grows : b.Grows b') :
    tables.Represents b where
  strings := grows.strings.trans h.strings
  typeRefs := grows.typeRefs.trans h.typeRefs
  typeSpecs k bytes hk := h.typeSpecs k bytes (Table.getElem?_of_prefix grows.typeSpecs hk)
  members k bytes hk := h.members k bytes (Table.getElem?_of_prefix grows.members hk)

/-- Writing took a builder from `b` to `b'` and made `P` true of all tables that hold what `b'`
stands for. -/
structure Yields (b b' : Builder) (P : Tables → Prop) : Prop where
  grows : b.Grows b'
  sound : b.Sound → b'.Sound
  holds : ∀ tables : Tables, tables.Represents b' → P tables

namespace Yields

variable {P Q : Tables → Prop}

lemma refl (h : ∀ tables, P tables) : Yields b b P :=
  ⟨.refl b, id, fun tables _ => h tables⟩

/-- What is true after the first of two steps stays true after the second. -/
lemma and (h : Yields b b₁ P) (h' : Yields b₁ b' Q) :
    Yields b b' fun tables => P tables ∧ Q tables where
  grows := h.grows.trans h'.grows
  sound := h'.sound ∘ h.sound
  holds tables represents :=
    ⟨h.holds tables (represents.of_grows h'.grows), h'.holds tables represents⟩

lemma imp (h : Yields b b' P) (weaker : ∀ tables, P tables → Q tables) : Yields b b' Q :=
  ⟨h.grows, h.sound, fun tables represents => weaker tables (h.holds tables represents)⟩

end Yields

/-! ## Rows -/

namespace Building

variable {α : Type} {a : α} {row : Nat}

/-- What adding type references makes true is true of every table that comes of it. -/
lemma holds_of_interning {x : Interning α} {P : Table TypeRef → Prop}
    (h : interning x b = .ok (a, b'))
    (hx : ∀ t', x b.typeRefs = .ok (a, t') → Interned b.typeRefs t' P) {table : Table TypeRef}
    (later : b'.typeRefs.rows <+: table.rows) : P table := by
  obtain ⟨⟨_, t'⟩, added, e⟩ := bind_eq_ok.1 h
  cases e
  exact (hx t' added).holds table later

/-- Adding type references yields what is true of all tables that come of it. -/
lemma yields_interning {x : Interning α} {P : Table TypeRef → Prop}
    (h : interning x b = .ok (a, b'))
    (hx : ∀ t', x b.typeRefs = .ok (a, t') → Interned b.typeRefs t' P) :
    Yields b b' fun tables => P tables.typeRefs := by
  obtain ⟨⟨_, t'⟩, added, e⟩ := bind_eq_ok.1 h
  cases e
  have interned := hx t' added
  refine ⟨⟨List.prefix_refl _, interned.grows, List.prefix_refl _, List.prefix_refl _⟩, ?_, ?_⟩
  · intro sound
    refine ⟨fun bytes listed => ?_, fun bytes listed => ?_⟩
    · obtain ⟨type, reads⟩ := sound.typeSpecs bytes listed
      exact ⟨type, fun table later => reads table (interned.grows.trans later)⟩
    · obtain ⟨filled, m, reads⟩ := sound.members bytes listed
      exact ⟨filled, m, fun table later => reads table (interned.grows.trans later)⟩
  · intro tables represents
    exact holds_of_interning h hx represents.typeRefs

lemma stringRow_eq (s : String) (b : Builder) :
    stringRow s b = .ok ((b.strings.intern s).1, { b with strings := (b.strings.intern s).2 }) :=
  rfl

lemma typeSpecRow_eq (bytes : Bytes) (b : Builder) :
    typeSpecRow bytes b
      = .ok ((b.typeSpecs.intern bytes).1, { b with typeSpecs := (b.typeSpecs.intern bytes).2 }) :=
  rfl

lemma memberRow_eq (bytes : Bytes) (b : Builder) :
    memberRow bytes b
      = .ok ((b.members.intern bytes).1, { b with members := (b.members.intern bytes).2 }) :=
  rfl

/-- A string gets a row. -/
lemma yields_stringRow {text : String} (h : stringRow text b = .ok (row, b')) :
    Yields b b' fun tables => ∃ k, row = k + 1 ∧ tables.strings[k]? = some text := by
  rw [stringRow_eq] at h
  cases h
  obtain ⟨grows, k, same, found⟩ := Table.grows_intern (t := b.strings) (a := text) rfl
  refine ⟨⟨grows, List.prefix_refl _, List.prefix_refl _, List.prefix_refl _⟩, ?_, ?_⟩
  · intro sound
    exact ⟨sound.typeSpecs, sound.members⟩
  · intro tables represents
    exact ⟨k, same, Table.getElem?_of_prefix represents.strings found⟩

/-- The values of a table after interning are those before and the new one. -/
lemma mem_intern {t t' : Table Bytes} (h : t.intern bytes = (row, t')) (hx : out ∈ t'.rows) :
    out ∈ t.rows ∨ out = bytes := by
  unfold Table.intern at h
  split at h
  · cases h
    exact .inl hx
  · cases h
    cases List.mem_append.1 hx with
    | inl old => exact .inl old
    | inr new => exact .inr (List.mem_singleton.1 new)

/-- A type specification that can be read gets a row. -/
lemma yields_typeSpecRow {type : TypeSig} (h : typeSpecRow bytes b = .ok (row, b'))
    (reads : ∀ table : Table TypeRef, b.typeRefs.rows <+: table.rows →
      (SignatureReader.type table).fresh.Reads bytes type) :
    Yields b b' fun tables => ∃ k, row = k + 1 ∧ tables.typeSpecs[k]? = some type := by
  rw [typeSpecRow_eq] at h
  cases h
  obtain ⟨grows, k, same, found⟩ := Table.grows_intern (t := b.typeSpecs) (a := bytes) rfl
  refine ⟨⟨List.prefix_refl _, List.prefix_refl _, grows, List.prefix_refl _⟩, ?_, ?_⟩
  · intro sound
    refine ⟨fun out listed => ?_, sound.members⟩
    cases mem_intern rfl listed with
    | inl old => exact sound.typeSpecs out old
    | inr new =>
      cases new
      exact ⟨type, reads⟩
  · intro tables represents
    obtain ⟨type', row, reads'⟩ := represents.typeSpecs k bytes found
    -- The row was read to some type, and the bytes leave no choice which.
    have alike := (reads' 0).unique (reads tables.typeRefs represents.typeRefs 0)
    rw [alike] at row
    exact ⟨k, same, row⟩

/-- A member reference that can be read gets a row. -/
lemma yields_memberRow {m : MemberRef} (h : memberRow bytes b = .ok (row, b')) (filled : bytes ≠ [])
    (reads : ∀ table : Table TypeRef, b.typeRefs.rows <+: table.rows →
      (Tables.readMember table).Reads bytes m) :
    Yields b b' fun tables => ∃ k, row = k + 1 ∧ tables.members[k]? = some m := by
  rw [memberRow_eq] at h
  cases h
  obtain ⟨grows, k, same, found⟩ := Table.grows_intern (t := b.members) (a := bytes) rfl
  refine ⟨⟨List.prefix_refl _, List.prefix_refl _, List.prefix_refl _, grows⟩, ?_, ?_⟩
  · intro sound
    refine ⟨sound.typeSpecs, fun out listed => ?_⟩
    cases mem_intern rfl listed with
    | inl old => exact sound.members out old
    | inr new =>
      cases new
      exact ⟨filled, m, reads⟩
  · intro tables represents
    obtain ⟨m', row, reads'⟩ := represents.members k bytes found
    have alike := (reads' 0).unique (reads tables.typeRefs represents.typeRefs 0)
    rw [alike] at row
    exact ⟨k, same, row⟩

/-! ## References -/

/-- A member reference gets a row if its owner and its signature can be read. -/
lemma yields_member {kind : MemberKind} {owner : TypeRef} {name : String} {m : MemberRef}
    (h : member kind owner name bytes b = .ok (row, b'))
    (reads : ∀ table : Table TypeRef, b.typeRefs.rows <+: table.rows →
      (Tables.readMemberSig table kind.code owner name).Reads bytes m) :
    Yields b b' fun tables => ∃ k, row = k + 1 ∧ tables.members[k]? = some m := by
  obtain ⟨ownerRow, b₁, interned, h⟩ := run_bind_eq_ok.1 h
  obtain ⟨text, named, h⟩ := run_lift_bind_eq_ok.1 h
  obtain ⟨sig, boxed, h⟩ := run_lift_bind_eq_ok.1 h
  have grown := yields_interning interned fun _ h => interned_typeRef h
  refine (grown.and (yields_memberRow h (List.cons_ne_nil _ _) fun table later => ?_)).imp
    fun _ => And.right
  have owner_reads := (holds_of_interning interned (fun _ h => interned_typeRef h) later).2
  refine Reader.Reads.bind (s := [kind.code]) (Reader.reads_uint8 _) ?_
  refine (Table.reads_readTypeRef owner_reads).bind ?_
  refine (Reader.reads_string named).bind ?_
  exact Reader.reads_blob boxed (reads table (grown.grows.typeRefs.trans later))

/-- A method reference gets a row. -/
lemma yields_method {m : MethodRef} (h : method m b = .ok (row, b')) (shallow : m.sig.Shallow) :
    Yields b b' fun tables => ∃ k, row = k + 1 ∧ tables.members[k]? = some (.method m) := by
  obtain ⟨sig, b₁, interned, h⟩ := run_bind_eq_ok.1 h
  have sig_reads := fun t' (h : m.sig.encode b.typeRefs = .ok (sig, t')) =>
    SignatureReader.interned_method h shallow
  have grown := yields_interning interned sig_reads
  refine (grown.and (yields_member h fun table later => ?_)).imp fun _ => And.right
  exact (SignatureReader.reads_fresh (holds_of_interning interned sig_reads later)).map
    fun sig => MemberRef.method ⟨m.owner, m.name, sig⟩

/-- A field reference gets a row. -/
lemma yields_field {f : FieldRef} (h : field f b = .ok (row, b')) (shallow : f.type.Shallow) :
    Yields b b' fun tables => ∃ k, row = k + 1 ∧ tables.members[k]? = some (.field f) := by
  obtain ⟨sig, b₁, interned, h⟩ := run_bind_eq_ok.1 h
  have sig_reads := fun t' (h : f.type.encodeField b.typeRefs = .ok (sig, t')) =>
    SignatureReader.interned_field h shallow
  have grown := yields_interning interned sig_reads
  refine (grown.and (yields_member h fun table later => ?_)).imp fun _ => And.right
  exact (SignatureReader.reads_fresh (holds_of_interning interned sig_reads later)).map
    fun type => MemberRef.field ⟨f.owner, f.name, type⟩

/-- The row of a reference. -/
def rowOf : Reference → Building Nat
  | .method m => method m
  | .field f => field f
  | .type t => do
    let bytes ← interning t.encode
    typeSpecRow bytes
  | .string s => stringRow s

/-- Every reference gets a row. -/
lemma yields_rowOf {r : Reference} (h : rowOf r b = .ok (row, b')) (shallow : r.Shallow) :
    Yields b b' fun tables => ∃ k, row = k + 1 ∧ tables.HasAt k r := by
  cases r with
  | method m => exact yields_method h shallow
  | field f => exact yields_field h shallow
  | type t =>
    obtain ⟨bytes, b₁, interned, written⟩ := run_bind_eq_ok.1 h
    have type_reads := fun t' (h : t.encode b.typeRefs = .ok (bytes, t')) =>
      SignatureReader.interned_type h shallow
    have grown := yields_interning interned type_reads
    have specified := yields_typeSpecRow written fun table later =>
      SignatureReader.reads_fresh (holds_of_interning interned type_reads later).2
    exact (grown.and specified).imp fun _ => And.right
  | string text => exact yields_stringRow h

/-! ## Tokens -/

/-- The table that the token of a reference names. -/
def tokenTable : Reference → UInt8
  | .method _ | .field _ => Token.memberTable
  | .type _ => Token.typeTable
  | .string _ => Token.stringTable

/-- The token of a reference is that of its row. -/
lemma request_eq (r : Reference) :
    allocator.request r = rowOf r >>= fun row => liftM (Token.ofParts (tokenTable r) row) := by
  cases r with
  | type t =>
    simp only [rowOf, bind_assoc]
    rfl
  | _ => rfl

/-- The table that a token was made of is the table that it names. -/
lemma table_ofParts {table : UInt8} {token : Token} (h : Token.ofParts table row = .ok token) :
    token.table = table := by
  unfold Token.ofParts at h
  split at h
  · next fits =>
    cases h
    have table_lt := table.toNat_lt
    have fits : row ≤ 0xFFFFFF := fits
    have word : table.toNat * 0x1000000 + row < 2 ^ 32 := by omega
    show UInt8.ofNat ((UInt32.ofNat (table.toNat * 0x1000000 + row)).toNat / 0x1000000) = table
    rw [UInt32.toNat_ofNat_of_lt' word]
    have high : (table.toNat * 0x1000000 + row) / 0x1000000 = table.toNat := by omega
    rw [high, UInt8.ofNat_toNat]
  · cases h

/-- What a row of a table holds is found by the token of the row. -/
lemma row_eq_ok {rows : List α} {token : Token} {k : Nat} (row : token.row = k + 1)
    (found : rows[k]? = some a) : Tables.row rows token = .ok a := by
  rw [Tables.row, row]
  simp only [found]

/-- A token of a row for a reference is resolved to the reference. -/
lemma resolves_of_hasAt {r : Reference} {token : Token} {k : Nat}
    (made : Token.ofParts (tokenTable r) (k + 1) = .ok token) (found : tables.HasAt k r) :
    tables.resolver.Resolves token r := by
  have member {m : MemberRef} (named : token.table = Token.memberTable)
      (found : tables.members[k]? = some m) : tables.member token = .ok m := by
    rw [Tables.member, if_pos named]
    exact row_eq_ok (TokenAllocator.row_ofParts made) found
  cases r with
  | method m => exact bind_eq_ok.2 ⟨_, member (table_ofParts made) found, rfl⟩
  | field f => exact bind_eq_ok.2 ⟨_, member (table_ofParts made) found, rfl⟩
  | type t =>
    have named : token.table = Token.typeTable := table_ofParts made
    show (if _ then Tables.row tables.typeSpecs token else _) = _
    rw [if_pos named]
    exact row_eq_ok (TokenAllocator.row_ofParts made) found
  | string text =>
    have named : token.table = Token.stringTable := table_ofParts made
    show (if _ then Tables.row tables.strings token else _) = _
    rw [if_pos named]
    exact row_eq_ok (TokenAllocator.row_ofParts made) found

/-- The token that a reference gets is resolved to the reference. -/
lemma yields_request {r : Reference} {token : Token}
    (h : allocator.request r b = .ok (token, b')) (shallow : r.Shallow) :
    Yields b b' fun tables => tables.resolver.Resolves token r := by
  rw [request_eq] at h
  obtain ⟨row, b₁, written, rest⟩ := run_bind_eq_ok.1 h
  obtain ⟨made, rfl⟩ := run_lift_eq_ok.1 rest
  refine (yields_rowOf written shallow).imp fun tables ⟨k, same, found⟩ => ?_
  rw [same] at made
  exact resolves_of_hasAt made found

/-- The tokens of all references are resolved to them. -/
lemma yields_answers {rs : List Reference} {answered : Answers}
    (h : allocator.answers rs b = .ok (answered, b')) (shallow : ∀ r ∈ rs, r.Shallow) :
    Yields b b' fun tables => tables.resolver.Inverts answered := by
  induction rs generalizing b answered with
  | nil =>
    obtain ⟨rfl, rfl⟩ := run_pure_eq_ok.1 h
    refine .refl fun _ a ha => ?_
    cases ha
  | cons r rs ih =>
    obtain ⟨token, b₁, asked, h⟩ := run_bind_eq_ok.1 h
    obtain ⟨rest, b₂, others, h⟩ := run_bind_eq_ok.1 h
    obtain ⟨rfl, rfl⟩ := run_pure_eq_ok.1 h
    have first := yields_request asked (shallow r List.mem_cons_self)
    have others := ih others fun other h => shallow other (List.mem_cons_of_mem r h)
    refine (first.and others).imp fun tables ⟨resolves, inverts⟩ a ha => ?_
    cases ha with
    | head => exact resolves
    | tail _ ha => exact inverts a ha

end Building

/-! ## The tables read back -/

/-- Elements are written one after another, each by itself. -/
lemma writeConcat_eq_ok {α : Type} {write : α → Except Fault Bytes} {as : List α}
    (h : writeConcat write as = .ok bytes) :
    ∃ pieces, List.Forall₂ (fun a out => write a = .ok out) as pieces ∧ bytes = pieces.flatten := by
  induction as generalizing bytes with
  | nil =>
    cases h
    exact ⟨[], .nil, rfl⟩
  | cons a as ih =>
    obtain ⟨front, first, h⟩ := bind_eq_ok.1 h
    obtain ⟨back, others, h⟩ := bind_eq_ok.1 h
    cases h
    obtain ⟨pieces, each, rfl⟩ := ih others
    exact ⟨front :: pieces, .cons first each, rfl⟩

/-- A list that is written without tables reads back as a list that corresponds to it. -/
lemma reads_writeList {α β : Type} {write : α → Except Fault Bytes} {r : Reader β}
    {R : α → β → Prop} {as : List α} (h : writeList write as = .ok bytes)
    (each : ∀ a ∈ as, ∀ out, write a = .ok out → out ≠ [] ∧ ∃ a', R a a' ∧ r.Reads out a') :
    ∃ as', List.Forall₂ R as as' ∧ (Reader.list r).Reads bytes as' := by
  obtain ⟨count, counted, h⟩ := bind_eq_ok.1 h
  obtain ⟨elements, written, h⟩ := bind_eq_ok.1 h
  cases h
  obtain ⟨pieces, apart, rfl⟩ := writeConcat_eq_ok written
  refine Reader.reads_list counted ?_
  exact ((List.forall₂_and_left _ _).2 ⟨each, apart⟩).imp fun _ out h => h.1 out h.2

/-- A list that is written without tables reads back. -/
lemma reads_writeList_eq {α : Type} {write : α → Except Fault Bytes} {r : Reader α} {as : List α}
    (h : writeList write as = .ok bytes)
    (each : ∀ a ∈ as, ∀ out, write a = .ok out → out ≠ [] ∧ r.Reads out a) :
    (Reader.list r).Reads bytes as := by
  obtain ⟨as', same, reads⟩ := reads_writeList (R := Eq) h fun a ha out written =>
    ⟨(each a ha out written).1, a, rfl, (each a ha out written).2⟩
  rw [List.forall₂_eq_eq_eq] at same
  cases same
  exact reads

lemma reads_writeTypeRef {ref : TypeRef} (h : writeTypeRef ref = .ok bytes) :
    bytes ≠ [] ∧ Tables.readTypeRef.Reads bytes ref := by
  obtain ⟨scope, inScope, h⟩ := bind_eq_ok.1 h
  obtain ⟨space, inSpace, h⟩ := bind_eq_ok.1 h
  obtain ⟨name, named, h⟩ := bind_eq_ok.1 h
  cases h
  refine ⟨List.append_ne_nil_of_left_ne_nil (Reader.string_ne_nil inScope) _, ?_⟩
  refine (Reader.reads_string inScope).bind ((Reader.reads_string inSpace).bind ?_)
  exact (Reader.reads_string named).bind_pure

/-- What is read from the tables that a builder encodes holds what its rows stand for. -/
lemma represents_of_encode (h : b.encode = .ok bytes) (sound : b.Sound) :
    ∃ tables, Tables.read.Reads bytes tables ∧ tables.Represents b := by
  obtain ⟨strings, written, h⟩ := bind_eq_ok.1 h
  obtain ⟨typeRefs, referred, h⟩ := bind_eq_ok.1 h
  obtain ⟨typeSpecs, specified, h⟩ := bind_eq_ok.1 h
  obtain ⟨members, listed, h⟩ := bind_eq_ok.1 h
  cases h
  have strings_read := reads_writeList_eq written fun _ _ _ h =>
    ⟨Reader.string_ne_nil h, Reader.reads_string h⟩
  have typeRefs_read := reads_writeList_eq referred fun _ _ _ h => reads_writeTypeRef h
  have specs : ∃ types, List.Forall₂ (fun bytes type =>
        (SignatureReader.type b.typeRefs).fresh.Reads bytes type) b.typeSpecs.rows types
      ∧ (Reader.list (Tables.readTypeSpec b.typeRefs)).Reads typeSpecs types := by
    refine reads_writeList specified fun spec hspec out h => ⟨Reader.blob_ne_nil h, ?_⟩
    obtain ⟨type, reads⟩ := sound.typeSpecs spec hspec
    have reads := reads b.typeRefs (List.prefix_refl _)
    exact ⟨type, reads, Reader.reads_blob h reads⟩
  have refs : ∃ ms, List.Forall₂ (fun bytes m => (Tables.readMember b.typeRefs).Reads bytes m)
        b.members.rows ms
      ∧ (Reader.list (Tables.readMember b.typeRefs)).Reads members ms := by
    refine reads_writeList listed fun member hmember out h => ?_
    cases h
    obtain ⟨filled, m, reads⟩ := sound.members member hmember
    have reads := reads b.typeRefs (List.prefix_refl _)
    exact ⟨filled, m, reads, reads⟩
  obtain ⟨types, typed, types_read⟩ := specs
  obtain ⟨ms, named, ms_read⟩ := refs
  refine ⟨⟨b.strings.rows, b.typeRefs, types, ms⟩, ?_, ?_⟩
  · refine strings_read.bind (typeRefs_read.bind ?_)
    exact types_read.bind (ms_read.bind_nil Reader.Reads.pure)
  · exact ⟨List.prefix_refl _, List.prefix_refl _, fun _ _ hk => forall₂_getElem? typed hk,
      fun _ _ hk => forall₂_getElem? named hk⟩

end Image

end HookWeave

import HookWeave.Proofs.Image.Bodies

/-!
# Images read back

A module that was written is read as the same module up to the identities of instructions
(`Module.ofBytes_toBytes`), if its types and attribute arguments nest no deeper than the reader
admits and its exception clauses are usual (`Module.Readable`). The definitions are written before
the tables but read after them: all they need of the tables is that these hold what the final
builder stands for, which is what `Yields` carries through the writing.
-/

namespace HookWeave

/-! ## The same module under other identities -/

/-- The same method, with the same body up to the identities of instructions. -/
structure MethodDeclaration.Same (m n : MethodDeclaration) : Prop where
  name : n.name = m.name
  flags : n.flags = m.flags
  params : n.params = m.params
  ret : n.ret = m.ret
  attributes : n.attributes = m.attributes
  body : Option.Rel MethodBody.Same m.body n.body

/-- The same type, with the same methods up to the identities of instructions. -/
structure TypeDeclaration.Same (s t : TypeDeclaration) : Prop where
  space : t.space = s.space
  name : t.name = s.name
  flags : t.flags = s.flags
  base : t.base = s.base
  interfaces : t.interfaces = s.interfaces
  attributes : t.attributes = s.attributes
  fields : t.fields = s.fields
  methods : List.Forall₂ MethodDeclaration.Same s.methods t.methods

/-- The same module, with the same types up to the identities of instructions. -/
structure Module.Same (m n : Module) : Prop where
  name : n.name = m.name
  references : n.references = m.references
  types : List.Forall₂ TypeDeclaration.Same m.types n.types

/-- The method as it is read back: the same but for its body, which is as it is read back. -/
def MethodDeclaration.ReadBack (m n : MethodDeclaration) : Prop :=
  ∃ body, Option.Rel MethodBody.ReadBack m.body body ∧ n = { m with body }

/-- The type as it is read back: the same but for its methods, which are as they are read back. -/
def TypeDeclaration.ReadBack (s t : TypeDeclaration) : Prop :=
  ∃ methods, List.Forall₂ MethodDeclaration.ReadBack s.methods methods ∧ t = { s with methods }

/-- A method as it is read back is the same method. -/
lemma MethodDeclaration.ReadBack.same {m n : MethodDeclaration} (h : m.ReadBack n) : m.Same n := by
  obtain ⟨body, same, rfl⟩ := h
  refine ⟨rfl, rfl, rfl, rfl, rfl, ?_⟩
  show Option.Rel MethodBody.Same m.body body
  generalize m.body = old at same ⊢
  cases same with
  | none => exact .none
  | some same => exact .some same.same

/-- A type as it is read back is the same type. -/
lemma TypeDeclaration.ReadBack.same {s t : TypeDeclaration} (h : s.ReadBack t) : s.Same t := by
  obtain ⟨methods, same, rfl⟩ := h
  exact ⟨rfl, rfl, rfl, rfl, rfl, rfl, rfl, same.imp fun _ _ => MethodDeclaration.ReadBack.same⟩

/-! ## What can be read -/

/-- The field nests less deep than the reader admits. -/
structure FieldDeclaration.Readable (f : FieldDeclaration) : Prop where
  type : f.type.Shallow
  attributes : ∀ a ∈ f.attributes, a.Shallow

/-- The method nests less deep than the reader admits, and so does its body. -/
structure MethodDeclaration.Readable (m : MethodDeclaration) : Prop where
  params : ∀ p ∈ m.params, p.type.Shallow
  ret : m.ret.Shallow
  attributes : ∀ a ∈ m.attributes, a.Shallow
  body : ∀ b ∈ m.body, b.Readable

/-- The type nests less deep than the reader admits, in all of its parts. -/
structure TypeDeclaration.Readable (t : TypeDeclaration) : Prop where
  attributes : ∀ a ∈ t.attributes, a.Shallow
  fields : ∀ f ∈ t.fields, f.Readable
  methods : ∀ m ∈ t.methods, m.Readable

/-- The module nests less deep than the reader admits, in all of its parts. -/
def Module.Readable (m : Module) : Prop :=
  ∀ t ∈ m.types, t.Readable

/-- The field takes no more levels than the reader has. -/
structure FieldDeclaration.Admitted (f : FieldDeclaration) : Prop where
  type : f.type.Shallow
  attributes : ∀ a ∈ f.attributes, a.Admitted

/-- The method takes no more levels than the reader has, and its body can be read. -/
structure MethodDeclaration.Admitted (m : MethodDeclaration) : Prop where
  params : ∀ p ∈ m.params, p.type.Shallow
  ret : m.ret.Shallow
  attributes : ∀ a ∈ m.attributes, a.Admitted
  body : ∀ b ∈ m.body, b.Readable

/-- The type takes no more levels than the reader has, in all of its parts. -/
structure TypeDeclaration.Admitted (t : TypeDeclaration) : Prop where
  attributes : ∀ a ∈ t.attributes, a.Admitted
  fields : ∀ f ∈ t.fields, f.Admitted
  methods : ∀ m ∈ t.methods, m.Admitted

lemma FieldDeclaration.Readable.admitted {f : FieldDeclaration} (h : f.Readable) : f.Admitted :=
  ⟨h.type, fun a ha => (h.attributes a ha).admitted⟩

lemma MethodDeclaration.Readable.admitted {m : MethodDeclaration} (h : m.Readable) : m.Admitted :=
  ⟨h.params, h.ret, fun a ha => (h.attributes a ha).admitted, h.body⟩

lemma TypeDeclaration.Readable.admitted {t : TypeDeclaration} (h : t.Readable) : t.Admitted :=
  ⟨fun a ha => (h.attributes a ha).admitted, fun f hf => (h.fields f hf).admitted,
    fun m hm => (h.methods m hm).admitted⟩

namespace Image

namespace Building

variable {b b' : Builder} {bytes : Bytes}

/-! ## Definitions -/

lemma uint16_append_ne_nil {v : UInt16} {t : Bytes} : Encoding.uint16 v ++ t ≠ [] :=
  List.append_ne_nil_of_left_ne_nil (List.cons_ne_nil _ _) _

/-- A field reads back. -/
lemma yields_writeField {f : FieldDeclaration} (h : writeField f b = .ok (bytes, b'))
    (admitted : f.Admitted) :
    Yields b b' fun tables => bytes ≠ [] ∧ tables.readField.Reads bytes f := by
  obtain ⟨name, sig, boxed, attributes, b₁, named, interned, box, attributed, rfl⟩ :=
    of_writeField_eq_ok h
  have typed := yields_interning interned fun _ h => SignatureReader.interned_field h admitted.type
  have attributed := yields_writeAttributes attributed admitted.attributes
  refine (typed.and attributed).imp fun tables ⟨type, attributes⟩ => ⟨uint16_append_ne_nil, ?_⟩
  refine (Reader.reads_uint16 f.flags).bind ?_
  refine (Reader.reads_string named).bind ?_
  refine (Reader.reads_blob box (SignatureReader.reads_fresh type)).bind ?_
  exact attributes.bind_pure

/-- The names of parameters read back, with the types that are known. -/
lemma reads_readParams {params : List Parameter} {pieces : List Bytes}
    (h : List.Forall₂ (fun p out => Encoding.string p.name = .ok out) params pieces) :
    (Tables.readParams (params.map (·.type))).Reads pieces.flatten params
      ∧ params.length ≤ pieces.flatten.length := by
  induction h with
  | nil => exact ⟨Reader.Reads.pure, Nat.le_refl _⟩
  | @cons p piece params pieces named _ ih =>
    refine ⟨(Reader.reads_string named).bind ih.1.bind_pure, ?_⟩
    have := List.length_pos_iff.2 (Reader.string_ne_nil named)
    rw [List.flatten_cons, List.length_append, List.length_cons]
    omega

/-- The signature of a method says that there is a receiver if and only if the flags do not say that
there is none. -/
lemma hasThis_ne (m : MethodDeclaration) :
    ¬ (m.sig.hasThis = true) = (m.flags &&& MethodDeclaration.staticFlag
      = MethodDeclaration.staticFlag) := by
  have hasThis : m.sig.hasThis = !decide (m.flags &&& MethodDeclaration.staticFlag
      = MethodDeclaration.staticFlag) := rfl
  intro same
  by_cases static : m.flags &&& MethodDeclaration.staticFlag = MethodDeclaration.staticFlag
  · have receiver : m.sig.hasThis = true := same.mpr static
    rw [hasThis, decide_eq_true static] at receiver
    cases receiver
  · refine static (same.mp ?_)
    rw [hasThis, decide_eq_false static]
    rfl

/-- A method reads back up to the identities of its instructions. -/
lemma yields_writeMethod {m : MethodDeclaration} (h : writeMethod m b = .ok (bytes, b'))
    (admitted : m.Admitted) :
    Yields b b' fun tables =>
      bytes ≠ [] ∧ ∃ m', m.ReadBack m' ∧ tables.readMethod.Reads bytes m' := by
  obtain ⟨name, sig, boxed, params, attributes, body, b₁, b₂, b₃, named, interned, box, listed, attributed,
    written, rfl⟩ := of_writeMethod_eq_ok h
  have shallow : m.sig.Shallow := by
    refine ⟨admitted.ret, fun t ht => ?_⟩
    obtain ⟨p, hp, rfl⟩ := List.mem_map.1 ht
    exact admitted.params p hp
  have typed := yields_interning interned fun _ h => SignatureReader.interned_method h shallow
  obtain ⟨count, pieces, counted, rfl, each⟩ := accumulates_yields.writeList listed fun p hp _ _ _ h => by
    obtain ⟨encoded, rfl⟩ := run_lift_eq_ok.1 h
    exact Yields.refl (P := fun _ => Encoding.string p.name = .ok _) fun _ => encoded
  have attributed := yields_writeAttributes attributed admitted.attributes
  have written := yields_writeBody? m.name written admitted.body
  refine (typed.and (each.and (attributed.and written))).imp
    fun tables ⟨type, each, attributes, body', same, read⟩ => ⟨uint16_append_ne_nil, ?_⟩
  refine ⟨{ m with body := body' }, ⟨body', same, rfl⟩, ?_⟩
  refine (Reader.reads_uint16 m.flags).bind ?_
  refine (Reader.reads_string named).bind ?_
  refine (Reader.reads_blob box (SignatureReader.reads_fresh type)).bind ?_
  rw [if_neg (hasThis_ne m), List.append_assoc]
  have parameters : m.params.length = m.sig.params.length := (List.length_map _).symm
  obtain ⟨names, enough⟩ := reads_readParams each
  refine fun _ => Reader.readsAt_count_bind counted ?_ ?_
  · rw [List.length_append]
    exact Nat.le_add_right_of_le enough
  · rw [if_neg (not_not_intro parameters)]
    refine (names _).bind ((attributes _).bind ?_)
    exact (read _).bind_nil Reader.ReadsAt.pure

/-- A type reads back, with its bodies in the forms of their layout. -/
lemma yields_writeType_readBack {t : TypeDeclaration} (h : writeType t b = .ok (bytes, b'))
    (admitted : t.Admitted) :
    Yields b b' fun tables => bytes ≠ [] ∧ ∃ t', t.ReadBack t' ∧ tables.readType.Reads bytes t' := by
  obtain ⟨space, name, base, interfaces, attributes, fields, methods, b₁, b₂, b₃, b₄, spaced, named, based,
    implemented, attributed, fielded, written, rfl⟩ := of_writeType_eq_ok h
  have based := yields_interning based fun _ h => interned_typeRef? h
  have implemented : Yields b₁ b₂ fun tables =>
      (Reader.list tables.typeRefs.readTypeRef).Reads interfaces t.interfaces := by
    refine yields_writeList_eq implemented fun ref _ _ _ _ h => ?_
    exact (yields_interning h fun _ h => interned_typeRef h).imp
      fun _ read => ⟨read.1, Table.reads_readTypeRef read.2⟩
  have attributed := yields_writeAttributes attributed admitted.attributes
  have fielded : Yields b₃ b₄ fun tables => (Reader.list tables.readField).Reads fields t.fields :=
    yields_writeList_eq fielded fun f hf _ _ _ h => yields_writeField h (admitted.fields f hf)
  have written : Yields b₄ b' fun tables =>
      ∃ ms, List.Forall₂ MethodDeclaration.ReadBack t.methods ms
        ∧ (Reader.list tables.readMethod).Reads methods ms :=
    yields_writeList_reads written fun m hm _ _ _ h => yields_writeMethod h (admitted.methods m hm)
  refine (based.and (implemented.and (attributed.and (fielded.and written)))).imp
    fun tables ⟨base, interfaces, attributes, fields, ms, same, methods⟩ => ?_
  refine ⟨List.append_ne_nil_of_left_ne_nil (List.cons_ne_nil _ _) _, { t with methods := ms },
    ⟨ms, same, rfl⟩, ?_⟩
  refine (Reader.reads_uint32 t.flags).bind ?_
  refine (Reader.reads_string spaced).bind ?_
  refine (Reader.reads_string named).bind ?_
  refine base.bind (interfaces.bind (attributes.bind (fields.bind ?_)))
  exact methods.bind_pure

/-- A type reads back up to the identities of instructions. -/
lemma yields_writeType {t : TypeDeclaration} (h : writeType t b = .ok (bytes, b'))
    (readable : t.Readable) :
    Yields b b' fun tables => bytes ≠ [] ∧ ∃ t', t.Same t' ∧ tables.readType.Reads bytes t' := by
  refine (yields_writeType_readBack h readable.admitted).imp fun tables ⟨filled, t', same, read⟩ => ?_
  exact ⟨filled, t', same.same, read⟩

end Building

/-! ## Images -/

/-- The parts of an image read back one after another, and nothing is left behind them. -/
lemma readsAll_read {m : Module} {name tables references definitions : Bytes} {found : Tables}
    {types : List TypeDeclaration} (named : Encoding.string m.name = .ok name)
    (tabled : Tables.read.Reads tables found)
    (referred : (Reader.list Reader.string).Reads references m.references)
    (defined : (Reader.list found.readType).Reads definitions types) :
    read.ReadsAll 0 (magic ++ (Encoding.uint16 version ++ (name ++ (tables
      ++ (references ++ definitions))))) (.ofParts m.name m.references types) := by
  refine Reader.ReadsAt.bind_all (Reader.reads_take magic _) ?_
  rw [if_neg (not_not_intro rfl)]
  refine Reader.ReadsAt.bind_all (Reader.reads_uint16 version _) ?_
  rw [if_neg (not_not_intro rfl)]
  refine Reader.ReadsAt.bind_all (Reader.reads_string named _) ?_
  refine Reader.ReadsAt.bind_all (tabled _) ?_
  refine Reader.ReadsAt.bind_all (referred _) ?_
  rw [← List.append_nil definitions]
  refine Reader.ReadsAt.bind_all (defined _) ?_
  rfl

end Image

/-- The image of a module whose tables go on from given ones. -/
def Module.toBytesOn (m : Module) (b : Image.Builder) : Except Fault Bytes := do
  let (definitions, builder) ← (Image.Building.writeList Image.Building.writeType m.types) b
  let name ← Encoding.string m.name
  let tables ← builder.encode
  let references ← Image.writeList Encoding.string m.references
  return Image.magic ++ (Encoding.uint16 Image.version ++ (name ++ (tables
    ++ (references ++ definitions))))

lemma Module.toBytesOn_empty (m : Module) : m.toBytesOn .empty = m.toBytes :=
  rfl

/-- From an image whose tables go on from given ones, a module is read back with types that correspond to
those that were written if each type that is written reads back as one that corresponds to it. -/
lemma Module.reads_of_toBytesOn {m : Module} {b₀ : Image.Builder} {bytes : Bytes}
    {R : TypeDeclaration → TypeDeclaration → Prop} (sound : b₀.Sound)
    (h : m.toBytesOn b₀ = .ok bytes)
    (each : ∀ t ∈ m.types, ∀ b out b', Image.Building.writeType t b = .ok (out, b') →
      Image.Yields b b' fun tables => out ≠ [] ∧ ∃ t', R t t' ∧ tables.readType.Reads out t') :
    ∃ types, List.Forall₂ R m.types types
      ∧ Module.ofBytes bytes = .ok (.ofParts m.name m.references types) := by
  obtain ⟨⟨definitions, builder⟩, defined, h⟩ := bind_eq_ok.1 h
  obtain ⟨name, named, h⟩ := bind_eq_ok.1 h
  obtain ⟨tables, encoded, h⟩ := bind_eq_ok.1 h
  obtain ⟨references, referred, h⟩ := bind_eq_ok.1 h
  cases h
  have yields : Image.Yields b₀ builder fun tables =>
      ∃ types, List.Forall₂ R m.types types
        ∧ (Reader.list tables.readType).Reads definitions types :=
    Image.Building.yields_writeList_reads defined each
  obtain ⟨found, tabled, represents⟩ := Image.represents_of_encode encoded (yields.sound sound)
  obtain ⟨types, same, typed⟩ := yields.holds found represents
  have referred : (Reader.list Reader.string).Reads references m.references :=
    Image.reads_writeList_eq referred fun _ _ _ h =>
      ⟨Reader.string_ne_nil h, Reader.reads_string h⟩
  have read := Image.readsAll_read named tabled referred typed
  exact ⟨types, same, bind_eq_ok.2 ⟨⟨_, by simp⟩, rfl, read.value⟩⟩

/-- A builder that has no rows of bytes can be read. -/
lemma Image.Builder.sound_of_empty {b : Image.Builder} (specs : b.typeSpecs.rows = [])
    (members : b.members.rows = []) : b.Sound :=
  ⟨fun _ listed => absurd (specs ▸ listed) List.not_mem_nil,
    fun _ listed => absurd (members ▸ listed) List.not_mem_nil⟩

/-- From its image, a module is read back likewise. -/
lemma Module.reads_of_toBytes {m : Module} {bytes : Bytes}
    {R : TypeDeclaration → TypeDeclaration → Prop} (h : m.toBytes = .ok bytes)
    (each : ∀ t ∈ m.types, ∀ b out b', Image.Building.writeType t b = .ok (out, b') →
      Image.Yields b b' fun tables => out ≠ [] ∧ ∃ t', R t t' ∧ tables.readType.Reads out t') :
    ∃ types, List.Forall₂ R m.types types
      ∧ Module.ofBytes bytes = .ok (.ofParts m.name m.references types) :=
  Module.reads_of_toBytesOn (Image.Builder.sound_of_empty rfl rfl) (m.toBytesOn_empty.trans h) each

/-- A module that is written is read as the same module up to the identities of instructions, and
unchanged since. -/
theorem Module.ofBytes_toBytes {m : Module} {bytes : Bytes} (h : m.toBytes = .ok bytes)
    (readable : m.Readable) :
    ∃ m', Module.ofBytes bytes = .ok m' ∧ m.Same m' ∧ m'.dirty = false := by
  obtain ⟨types, same, read⟩ := Module.reads_of_toBytes h fun t ht _ _ _ written =>
    Image.Building.yields_writeType written (readable t ht)
  exact ⟨.ofParts m.name m.references types, read, ⟨rfl, rfl, same⟩, rfl⟩

namespace Example

/-- The root of all types. -/
def object : TypeRef := ⟨"core", "System", "Object"⟩

/-- A body with a protected region that puts out a text. -/
def greeting : MethodBody where
  maxStack := 1
  initLocals := true
  locals := [.prim .int32]
  instructions := .ofCode [(.ldstr, .string "hello"),
    (.call, .method ⟨object, "print", ⟨false, .void, [.prim .string]⟩⟩), (.endfinally, .none),
    (.ret, .none)]
  clauses := [⟨ExceptionClause.finallyFlags, ⟨0⟩, some ⟨2⟩, ⟨2⟩, some ⟨3⟩, none⟩]

/-- A type with a field, a method and an attribute. -/
def greeterType : TypeDeclaration where
  space := "App"
  name := "Greeter"
  flags := 1
  base := some object
  interfaces := []
  attributes := [⟨⟨object, ".ctor", ⟨true, .void, []⟩⟩, [.array [.string "a", .array []]]⟩]
  fields := [⟨"text", .array (.prim .string), 0x10, []⟩]
  methods := [⟨"greet", 0x10, [⟨"to", .byRef (.refType object)⟩], .void, [], some greeting⟩]

/-- A module with that type. -/
def greeter : Module := .ofParts "greeter" ["core"] [greeterType]

/-- The body nests no deeper than admitted. -/
lemma greeting_readable : greeting.Readable := by
  refine ⟨fun t ht => ?_, fun r hr => ?_, fun c hc => ?_⟩
  · cases List.mem_singleton.1 ht
    decide
  · have listed : greeting.instructions.references = [.string "hello",
      .method ⟨object, "print", ⟨false, .void, [.prim .string]⟩⟩] := rfl
    rw [listed] at hr
    cases hr with
    | head => trivial
    | tail _ hr =>
      cases List.mem_singleton.1 hr
      refine ⟨by decide, fun t ht => ?_⟩
      cases List.mem_singleton.1 ht
      decide
  · cases List.mem_singleton.1 hc
    exact .inr ⟨.inl rfl, rfl⟩

/-- The module nests no deeper than admitted. -/
lemma greeter_readable : greeter.Readable := by
  intro t ht
  cases List.mem_singleton.1 ht
  refine ⟨fun a ha => ?_, fun f hf => ?_, fun m hm => ?_⟩
  · cases List.mem_singleton.1 ha
    refine ⟨⟨by decide, nofun⟩, fun x hx => ?_⟩
    cases List.mem_singleton.1 hx
    decide
  · cases List.mem_singleton.1 hf
    exact ⟨by decide, nofun⟩
  · cases List.mem_singleton.1 hm
    refine ⟨fun p hp => ?_, by decide, nofun, fun b hb => ?_⟩
    · cases List.mem_singleton.1 hp
      decide
    · cases hb
      exact greeting_readable

/-- The module is written and comes back. -/
theorem greeter_read :
    greeter.Readable ∧ ∃ bytes, greeter.toBytes = .ok bytes
      ∧ ∃ m', Module.ofBytes bytes = .ok m' ∧ greeter.Same m' ∧ m'.dirty = false := by
  have written : greeter.toBytes.isOk = true := by decide +kernel
  cases h : greeter.toBytes with
  | ok bytes => exact ⟨greeter_readable, bytes, rfl, Module.ofBytes_toBytes h greeter_readable⟩
  | error e =>
    rw [h] at written
    cases written

end Example

end HookWeave

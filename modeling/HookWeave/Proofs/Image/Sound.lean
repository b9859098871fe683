import HookWeave.Proofs.Code.Reach
import HookWeave.Proofs.Image.Limits

/-!
# Modules that are sound but for their size

A sound module can be written and read but for its size: its names are short enough, its types nest less
deep than the reader admits, its branches are in reach and its regions in order (`Module.Sound`). What was
loaded is sound (`Module.Loaded.sound`). If besides what is counted can be counted and what takes rows has
tokens (`Module.Sized`), the module is written with all branches in the forms that they have, and its image
is accepted (`Module.Sound.accepted`).
-/

namespace HookWeave

/-! ## Sound declarations -/

/-- The branches of the body are in reach, its regions in order, and what it names can be read and
written. -/
structure MethodBody.Sound (b : MethodBody) : Prop where
  locals : Countable TypeSig.Loaded b.locals
  code : ∃ ps, b.instructions.Reaching ps
  references : ∀ r ∈ b.instructions.references, r.Loaded
  clauses : Countable (·.Loaded b.instructions) b.clauses

/-- The type and the attributes of the field can be read and written. -/
structure FieldDeclaration.Sound (f : FieldDeclaration) : Prop where
  type : f.type.Loaded
  attributes : Countable Attribute.Loaded f.attributes

/-- The method can be read, and written unless its code is too large. -/
structure MethodDeclaration.Sound (m : MethodDeclaration) : Prop where
  name : Text.Short m.name
  sig : m.sig.Loaded
  params : Countable (fun p => Text.Short p.name) m.params
  attributes : Countable Attribute.Loaded m.attributes
  body : ∀ b ∈ m.body, b.Sound

/-- The type can be read, and written unless its code is too large or its fields are too many. -/
structure TypeDeclaration.Sound (t : TypeDeclaration) : Prop where
  space : Text.Short t.space
  name : Text.Short t.name
  base : ∀ ref ∈ t.base, (Mention.typeRef ref).Writable
  interfaces : Countable (fun ref => (Mention.typeRef ref).Writable) t.interfaces
  attributes : Countable Attribute.Loaded t.attributes
  fields : ∀ f ∈ t.fields, f.Sound
  methods : Countable MethodDeclaration.Sound t.methods

/-- The module can be read, and written unless it is too large. -/
structure Module.Sound (m : Module) : Prop where
  name : Text.Short m.name
  references : ∀ scope ∈ m.references, Text.Short scope
  types : Countable TypeDeclaration.Sound m.types

/-! ## What was loaded -/

/-- Attributes that can be read and written were as good as loaded. -/
lemma loaded_of_attributes {as : List Attribute} (admitted : ∀ a ∈ as, a.Admitted)
    (writable : Countable Attribute.Writable as)
    (mentions : ∀ e ∈ as.flatMap (·.mentions), e.Writable) : Countable Attribute.Loaded as :=
  writable.imp fun a ha written =>
    ⟨admitted a ha, written, List.forall_mem_flatMap.1 mentions a ha⟩

lemma MethodBody.Sound.of_writable {b : MethodBody} (readable : b.Readable) (writable : b.Writable)
    (mentions : ∀ e ∈ b.mentions, e.Writable) : b.Sound := by
  obtain ⟨locals, others⟩ := List.forall_mem_append.1 mentions
  obtain ⟨references, clauses⟩ := List.forall_mem_append.1 others
  obtain ⟨ps, settled⟩ := writable.code
  refine ⟨⟨writable.locals, fun t ht => ?_⟩, ⟨ps, settled.reaching⟩, fun r hr => ?_, ?_⟩
  · exact ⟨readable.locals t ht, List.forall_mem_flatMap.1 locals t ht⟩
  · exact ⟨readable.references r hr, List.forall_mem_flatMap.1 references r hr⟩
  · exact writable.clauses.imp fun c hc ordered =>
      ⟨readable.clauses c hc, ordered, List.forall_mem_flatMap.1 clauses c hc⟩

lemma FieldDeclaration.Sound.of_writable {f : FieldDeclaration} (admitted : f.Admitted)
    (writable : f.Writable) (mentions : ∀ e ∈ f.mentions, e.Writable) : f.Sound := by
  obtain ⟨type, attributes⟩ := List.forall_mem_append.1 mentions
  exact ⟨⟨admitted.type, type⟩,
    loaded_of_attributes admitted.attributes writable.attributes attributes⟩

lemma MethodDeclaration.Sound.of_writable {m : MethodDeclaration} (admitted : m.Admitted)
    (writable : m.Writable) (mentions : ∀ e ∈ m.mentions, e.Writable) : m.Sound := by
  obtain ⟨sig, others⟩ := List.forall_mem_append.1 mentions
  obtain ⟨attributes, body⟩ := List.forall_mem_append.1 others
  have shallow : m.sig.Shallow := ⟨admitted.ret, List.forall_mem_map.2 admitted.params⟩
  refine ⟨writable.name, ⟨shallow, sig⟩, writable.params,
    loaded_of_attributes admitted.attributes writable.attributes attributes, fun b hb => ?_⟩
  exact .of_writable (admitted.body b hb) (writable.body b hb)
    (List.forall_mem_flatMap.1 body b (Option.mem_toList.2 hb))

lemma TypeDeclaration.Sound.of_writable {t : TypeDeclaration} (admitted : t.Admitted)
    (writable : t.Writable) (mentions : ∀ e ∈ t.mentions, e.Writable) : t.Sound := by
  obtain ⟨base, others⟩ := List.forall_mem_append.1 mentions
  obtain ⟨interfaces, others⟩ := List.forall_mem_append.1 others
  obtain ⟨attributes, others⟩ := List.forall_mem_append.1 others
  obtain ⟨fields, methods⟩ := List.forall_mem_append.1 others
  refine ⟨writable.space, writable.name, fun ref href => ?_, ⟨writable.interfaces, ?_⟩,
    loaded_of_attributes admitted.attributes writable.attributes attributes, fun f hf => ?_, ?_⟩
  · exact List.forall_mem_map.1 base ref (Option.mem_toList.2 href)
  · exact List.forall_mem_map.1 interfaces
  · exact .of_writable (admitted.fields f hf) (writable.fields.2 f hf)
      (List.forall_mem_flatMap.1 fields f hf)
  · exact writable.methods.imp fun m hm written =>
      .of_writable (admitted.methods m hm) written (List.forall_mem_flatMap.1 methods m hm)

/-- What was loaded is sound. -/
theorem Module.Loaded.sound {m : Module} (h : m.Loaded) : m.Sound where
  name := h.writable.name
  references := h.writable.references.2
  types := h.writable.types.imp fun t ht written =>
    .of_writable (h.admitted t ht) written (List.forall_mem_flatMap.1 h.mentions t ht)

/-! ## What can be read -/

namespace MethodBody.Sound

variable {b : MethodBody}

lemma readable (h : b.Sound) : b.Readable where
  locals t ht := (h.locals.2 t ht).shallow
  references r hr := (h.references r hr).shallow
  clauses c hc := (h.clauses.2 c hc).usual

lemma mentions (h : b.Sound) : ∀ e ∈ b.mentions, e.Writable := by
  refine List.forall_mem_append.2 ⟨writable_of_countable h.locals fun _ t => t.mentions, ?_⟩
  exact List.forall_mem_append.2 ⟨List.forall_mem_flatMap.2 fun r hr => (h.references r hr).mentions,
    writable_of_countable h.clauses fun _ c => c.mentions⟩

end MethodBody.Sound

lemma FieldDeclaration.Sound.admitted {f : FieldDeclaration} (h : f.Sound) : f.Admitted :=
  ⟨h.type.shallow, fun a ha => (h.attributes.2 a ha).admitted⟩

lemma FieldDeclaration.Sound.mentions {f : FieldDeclaration} (h : f.Sound) :
    ∀ e ∈ f.mentions, e.Writable :=
  List.forall_mem_append.2 ⟨h.type.mentions, writable_of_countable h.attributes fun _ a => a.mentions⟩

namespace MethodDeclaration.Sound

variable {m : MethodDeclaration}

lemma admitted (h : m.Sound) : m.Admitted where
  params := List.forall_mem_map.1 h.sig.shallow.params
  ret := h.sig.shallow.ret
  attributes a ha := (h.attributes.2 a ha).admitted
  body b hb := (h.body b hb).readable

lemma mentions (h : m.Sound) : ∀ e ∈ m.mentions, e.Writable := by
  refine List.forall_mem_append.2 ⟨h.sig.mentions, List.forall_mem_append.2
    ⟨writable_of_countable h.attributes fun _ a => a.mentions, ?_⟩⟩
  exact List.forall_mem_flatMap.2 fun b hb => (h.body b (Option.mem_toList.1 hb)).mentions

end MethodDeclaration.Sound

namespace TypeDeclaration.Sound

variable {t : TypeDeclaration}

lemma admitted (h : t.Sound) : t.Admitted where
  attributes a ha := (h.attributes.2 a ha).admitted
  fields f hf := (h.fields f hf).admitted
  methods m hm := (h.methods.2 m hm).admitted

lemma mentions (h : t.Sound) : ∀ e ∈ t.mentions, e.Writable := by
  refine List.forall_mem_append.2 ⟨List.forall_mem_map.2 fun ref href => ?_, ?_⟩
  · exact h.base ref (Option.mem_toList.1 href)
  refine List.forall_mem_append.2 ⟨List.forall_mem_map.2 h.interfaces.2, ?_⟩
  refine List.forall_mem_append.2 ⟨writable_of_countable h.attributes fun _ a => a.mentions, ?_⟩
  exact List.forall_mem_append.2 ⟨List.forall_mem_flatMap.2 fun f hf => (h.fields f hf).mentions,
    writable_of_countable h.methods fun _ m => m.mentions⟩

end TypeDeclaration.Sound

lemma Module.Sound.mentions {m : Module} (h : m.Sound) : ∀ e ∈ m.mentions, e.Writable :=
  writable_of_countable h.types fun _ t => t.mentions

/-! ## Sizes -/

/-- The fields can be counted, and so can the bytes of their names and those of the code of each
method. -/
structure TypeDeclaration.Sized (t : TypeDeclaration) : Prop where
  fields : Countable (fun f => Text.Short f.name) t.fields
  bodies : ∀ m ∈ t.methods, ∀ b ∈ m.body, b.instructions.byteSize ≤ Encoding.maxCompressed

/-- Tokens can name all rows that the module takes, and what is counted in it can be counted. How many bytes
a signature takes depends on the rows of its types, so of these it is said that none is refused for them. -/
structure Module.Sized (m : Module) : Prop where
  rows : ∀ table, (m.distinct table).length ≤ Token.maxRow
  signatures : ∀ s e, .signature s ∈ m.mentions → m.toBytes = .error e → ¬ s.Refused e
  references : m.references.length ≤ Encoding.maxCompressed
  types : ∀ t ∈ m.types, t.Sized

lemma MethodBody.Sound.writable {b : MethodBody} (h : b.Sound)
    (small : b.instructions.byteSize ≤ Encoding.maxCompressed) : b.Writable := by
  obtain ⟨ps, reaching⟩ := h.code
  exact ⟨h.locals.1, ⟨ps, reaching.settled small⟩, h.clauses.imp fun _ _ c => c.ordered⟩

lemma TypeDeclaration.Sound.writable {t : TypeDeclaration} (h : t.Sound) (sized : t.Sized) :
    t.Writable := by
  refine ⟨h.space, h.name, h.interfaces.1, h.attributes.imp fun _ _ a => a.writable,
    sized.fields.imp fun f hf short => ?_, h.methods.imp fun m hm sound => ?_⟩
  · have sound := h.fields f hf
    exact ⟨short, sound.type.shallow, sound.attributes.imp fun _ _ a => a.writable⟩
  · exact ⟨sound.name, sound.params, sound.attributes.imp fun _ _ a => a.writable,
      fun b hb => (sound.body b hb).writable (sized.bodies m hm b hb)⟩

lemma MethodBody.Writable.keepsForms {b : MethodBody} (h : b.Writable) : b.instructions.KeepsForms := by
  obtain ⟨ps, settled⟩ := h.code
  exact settled.keepsForms

/-- A sound module that is not too large is written with all branches in the forms that they have, and its
image is accepted. -/
theorem Module.Sound.accepted {m : Module} (h : m.Sound) (sized : m.Sized) :
    ∃ image, m.toBytes = .ok image
      ∧ (∀ t ∈ m.types, ∀ method ∈ t.methods, ∀ b ∈ method.body, b.instructions.KeepsForms)
      ∧ ∃ m', Module.ofBytes image = .ok m' := by
  have types : Countable TypeDeclaration.Writable m.types :=
    h.types.imp fun t ht sound => sound.writable (sized.types t ht)
  have writable : m.Writable := ⟨h.name, ⟨sized.references, h.references⟩, types⟩
  obtain ⟨image, written⟩ | ⟨e, s, failed, mentioned, refused, _⟩ :=
    Module.toBytes_of_writable ⟨h.mentions, sized.rows⟩ writable
  · refine ⟨image, written, fun t ht method hm b hb => ?_, ?_⟩
    · exact (((types.2 t ht).methods.2 method hm).body b hb).keepsForms
    · exact (Module.exists_ofBytes_iff written).2 fun t ht => (h.types.2 t ht).admitted
  · exact absurd refused (sized.signatures s e mentioned failed)

end HookWeave

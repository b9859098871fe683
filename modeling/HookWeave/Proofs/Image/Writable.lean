import HookWeave.Proofs.Code.Settled
import HookWeave.Proofs.Image.Writes

/-!
# What can be written

A module can be written if its names and lists are not too long, its code is settled and the regions
of its exception clauses do not stop before they start (`Module.Writable`). Then `toBytes` gives an
image, unless the module mentions a method signature of more bytes than can be counted
(`Module.toBytes_of_writable`).
-/

namespace HookWeave

/-! ## Declarations that can be written -/

mutual

/-- The texts and arrays in an argument are not too long. -/
def AttributeArgument.Writable : AttributeArgument → Prop
  | .string s => Text.Short s
  | .array elements => elements.length ≤ Encoding.maxCompressed ∧ AllWritable elements
  | .null | .bool _ | .int32 _ | .type _ => True

/-- All arguments are such. -/
def AttributeArgument.AllWritable : List AttributeArgument → Prop
  | [] => True
  | a :: as => a.Writable ∧ AllWritable as

end

/-- The arguments of the attribute can be written. -/
def Attribute.Writable (a : Attribute) : Prop :=
  a.arguments.length ≤ Encoding.maxCompressed ∧ AttributeArgument.AllWritable a.arguments

/-- The regions of the clause stop no earlier than they start. -/
structure ExceptionClause.Ordered (l : InstructionList) (c : ExceptionClause) : Prop where
  guarded : l.Region c.tryStart c.tryEnd
  handler : l.Region c.handlerStart c.handlerEnd

/-- The code is settled, and there are not too many locals and clauses. -/
structure MethodBody.Writable (b : MethodBody) : Prop where
  locals : b.locals.length ≤ Encoding.maxCompressed
  code : ∃ ps, b.instructions.Settled ps
  clauses : Countable (·.Ordered b.instructions) b.clauses

/-- The name and the attributes of the field are not too long, and its type can be read. -/
structure FieldDeclaration.Writable (f : FieldDeclaration) : Prop where
  name : Text.Short f.name
  type : f.type.Shallow
  attributes : Countable Attribute.Writable f.attributes

/-- The names and lists of the method are not too long, and its body can be written. -/
structure MethodDeclaration.Writable (m : MethodDeclaration) : Prop where
  name : Text.Short m.name
  params : Countable (fun p => Text.Short p.name) m.params
  attributes : Countable Attribute.Writable m.attributes
  body : ∀ b ∈ m.body, b.Writable

/-- The names and lists of the type are not too long, and its members can be written. -/
structure TypeDeclaration.Writable (t : TypeDeclaration) : Prop where
  space : Text.Short t.space
  name : Text.Short t.name
  interfaces : t.interfaces.length ≤ Encoding.maxCompressed
  attributes : Countable Attribute.Writable t.attributes
  fields : Countable FieldDeclaration.Writable t.fields
  methods : Countable MethodDeclaration.Writable t.methods

/-- The names and lists of the module are not too long, and its types can be written. -/
structure Module.Writable (m : Module) : Prop where
  name : Text.Short m.name
  references : Countable Text.Short m.references
  types : Countable TypeDeclaration.Writable m.types

namespace Image.Building

variable {mentions : List Mention}

/-- What each element mentions is mentioned if all that they mention is. -/
lemma subset_of_flatMap {α : Type} {f : α → List Mention} {as : List α} {a : α}
    (h : as.flatMap f ⊆ mentions) (ha : a ∈ as) : f a ⊆ mentions :=
  fun _ he => h (List.mem_flatMap.2 ⟨a, ha, he⟩)

/-! ## Attributes -/

mutual

lemma goes_writeArgument (a : AttributeArgument) (budget : Budget mentions) (writable : a.Writable)
    (listed : a.mentions ⊆ mentions) : Goes mentions (writeArgument a) fun _ => True := by
  cases a with
  | null | bool | int32 => exact .pure trivial
  | string s =>
    exact (Goes.lift (Encoding.string_eq_ok writable)).bind fun _ _ => .pure trivial
  | type t =>
    exact (goes_typeRef budget (listed (List.mem_singleton.2 rfl))).bind fun _ _ => .pure trivial
  | array elements =>
    refine (Goes.lift (Encoding.count_eq_ok writable.1)).bind fun _ _ => ?_
    exact (goes_writeArguments elements budget writable.2 listed).bind fun _ _ => .pure trivial

lemma goes_writeArguments (as : List AttributeArgument) (budget : Budget mentions)
    (writable : AttributeArgument.AllWritable as)
    (listed : AttributeArgument.mentionsAll as ⊆ mentions) :
    Goes mentions (writeArguments as) fun _ => True := by
  cases as with
  | nil => exact .pure trivial
  | cons a as =>
    obtain ⟨first, others⟩ := List.append_subset.1 listed
    refine (goes_writeArgument a budget writable.1 first).bind fun _ _ => ?_
    exact (goes_writeArguments as budget writable.2 others).bind fun _ _ => .pure trivial

end

lemma goes_writeAttribute {a : Attribute} (budget : Budget mentions) (writable : a.Writable)
    (listed : a.mentions ⊆ mentions) : Goes mentions (writeAttribute a) fun _ => True := by
  obtain ⟨constructor, arguments⟩ := List.append_subset.1 listed
  refine (goes_rowOf budget constructor).bind fun row small => ?_
  refine (Goes.lift (Encoding.compressed_eq_ok (Nat.le_trans small (by decide)))).bind fun _ _ => ?_
  refine (Goes.lift (Encoding.count_eq_ok writable.1)).bind fun _ _ => ?_
  exact (goes_writeArguments a.arguments budget writable.2 arguments).bind fun _ _ => .pure trivial

lemma goes_writeAttributes {as : List Attribute} (budget : Budget mentions)
    (writable : Countable Attribute.Writable as) (listed : as.flatMap (·.mentions) ⊆ mentions) :
    Goes mentions (writeList writeAttribute as) fun _ => True :=
  goes_writeList <| writable.imp fun _ ha written =>
    goes_writeAttribute budget written (subset_of_flatMap listed ha)

/-! ## Bodies -/

/-- The pieces of settled code are written one after another. -/
lemma goes_emit {l : InstructionList} {ps qs : List Placed} (budget : Budget mentions)
    (settled : l.Settled ps) (within : qs ⊆ ps)
    (listed : ∀ p ∈ qs, p.instruction.operand.references.flatMap (·.mentions) ⊆ mentions) :
    Goes mentions (EncodedBody.emit allocator (l.laidOut ps) qs) fun _ => True := by
  induction qs with
  | nil => exact .pure trivial
  | cons p qs ih =>
    obtain ⟨here, within⟩ := List.cons_subset.1 within
    obtain ⟨first, others⟩ := List.forall_mem_cons.1 listed
    have operand : Goes mentions (EncodedBody.operandBytes allocator (l.laidOut ps) p)
        fun _ => True := by
      obtain ⟨bytes, same⟩ | ⟨r, hr, same⟩ := settled.operandBytes allocator here
      · exact same ▸ .pure trivial
      · exact same ▸ (goes_request budget (subset_of_flatMap first hr)).bind fun _ _ => .pure trivial
    exact operand.bind fun _ _ => (ih within others).bind fun _ _ => .pure trivial

/-- Settled code is written as it is laid out. -/
lemma goes_ofList {l : InstructionList} {ps : List Placed} (budget : Budget mentions)
    (settled : l.Settled ps) (listed : l.references.flatMap (·.mentions) ⊆ mentions) :
    Goes mentions (EncodedBody.ofList l allocator) fun e =>
      e.starts = (ps.map fun p => (p.instruction.id, p.start))
        ∧ e.code.length = (ps.map (·.size)).sum := by
  have references : ∀ p ∈ ps, p.instruction.operand.references.flatMap (·.mentions) ⊆ mentions := by
    intro p hp e he
    obtain ⟨r, hr, he⟩ := List.mem_flatMap.1 he
    refine listed (List.mem_flatMap.2 ⟨r, List.mem_flatMap.2 ⟨p.instruction, ?_, hr⟩, he⟩)
    rw [← settled.placed]
    exact List.mem_map.2 ⟨p, hp, rfl⟩
  have emitted : Goes mentions (EncodedBody.emit allocator (l.laidOut ps) ps)
      fun bytes => bytes.length = (ps.map (·.size)).sum := by
    intro b within
    obtain ⟨bytes, b', ok, within, _⟩ | refused :=
      goes_emit budget settled (List.Subset.refl ps) references b within
    · exact .inl ⟨bytes, b', ok, within, EncodedBody.length_emit settled.consecutive ok⟩
    · exact .inr refused
  refine (Goes.lift ⟨(), settled.reaching.validateTargets⟩).bind fun _ _ => ?_
  refine (Goes.lift ⟨_, settled.reaching.layout⟩).bind fun layout laid => ?_
  cases settled.reaching.layout.symm.trans laid
  exact emitted.bind fun bytes length => .pure ⟨rfl, length⟩

lemma goes_writeClause {l : InstructionList} {ps : List Placed} {e : EncodedBody}
    {c : ExceptionClause} (budget : Budget mentions) (settled : l.Settled ps)
    (starts : e.starts = ps.map fun p => (p.instruction.id, p.start))
    (length : e.code.length = (ps.map (·.size)).sum) (ordered : c.Ordered l)
    (listed : c.mentions ⊆ mentions) : Goes mentions (writeClause e c) fun _ => True := by
  obtain ⟨tryStart, tryEnd, tryStarts, tryEnds, guarded⟩ := settled.region starts length ordered.guarded
  obtain ⟨first, last, firsts, lasts, handled⟩ := settled.region starts length ordered.handler
  refine (Goes.lift ⟨_, tryStarts⟩).bind fun _ same => ?_
  cases tryStarts.symm.trans same
  refine (Goes.lift ⟨_, tryEnds⟩).bind fun _ same => ?_
  cases tryEnds.symm.trans same
  refine (Goes.lift ⟨_, firsts⟩).bind fun _ same => ?_
  cases firsts.symm.trans same
  refine (Goes.lift ⟨_, lasts⟩).bind fun _ same => ?_
  cases lasts.symm.trans same
  refine (Goes.lift ⟨_, if_pos guarded⟩).bind fun _ _ => ?_
  refine (Goes.lift ⟨_, if_pos handled⟩).bind fun _ _ => ?_
  refine (goes_typeRef? budget fun ref href => ?_).bind fun _ _ => .pure trivial
  exact listed (List.mem_map.2 ⟨ref, Option.mem_toList.2 href, rfl⟩)

lemma goes_writeBody {body : MethodBody} (budget : Budget mentions) (writable : body.Writable)
    (listed : body.mentions ⊆ mentions) : Goes mentions (writeBody body) fun _ => True := by
  obtain ⟨locals, others⟩ := List.append_subset.1 listed
  obtain ⟨references, clauses⟩ := List.append_subset.1 others
  obtain ⟨ps, settled⟩ := writable.code
  refine (goes_writeList ⟨writable.locals, fun t ht => ?_⟩).bind fun _ _ => ?_
  · exact goes_type budget (subset_of_flatMap locals ht)
  · refine (goes_ofList budget settled references).bind fun e ⟨starts, length⟩ => ?_
    have small : e.code.length ≤ Encoding.maxCompressed := length ▸ settled.small
    refine (Goes.lift (Encoding.blob_eq_ok small)).bind fun _ _ => ?_
    refine (goes_writeList ?_).bind fun _ _ => .pure trivial
    exact writable.clauses.imp fun c hc ordered =>
      goes_writeClause budget settled starts length ordered (subset_of_flatMap clauses hc)

lemma goes_writeBody? {body : Option MethodBody} (budget : Budget mentions)
    (writable : ∀ b ∈ body, b.Writable) (listed : body.toList.flatMap (·.mentions) ⊆ mentions) :
    Goes mentions (writeBody? body) fun _ => True := by
  cases body with
  | none => exact .pure trivial
  | some body =>
    have listed : body.mentions ⊆ mentions := subset_of_flatMap listed (List.mem_singleton.2 rfl)
    exact (goes_writeBody budget (writable body rfl) listed).bind fun _ _ => .pure trivial

/-! ## Definitions -/

lemma goes_writeField {f : FieldDeclaration} (budget : Budget mentions) (writable : f.Writable)
    (listed : f.mentions ⊆ mentions) : Goes mentions (writeField f) fun _ => True := by
  obtain ⟨type, attributes⟩ := List.append_subset.1 listed
  refine (Goes.lift (Encoding.string_eq_ok writable.name)).bind fun _ _ => ?_
  refine (goes_fieldSig budget type writable.type).bind fun _ small => ?_
  refine (Goes.lift (Encoding.blob_eq_ok small)).bind fun _ _ => ?_
  exact (goes_writeAttributes budget writable.attributes attributes).bind fun _ _ => .pure trivial

lemma goes_writeMethod {m : MethodDeclaration} (budget : Budget mentions) (writable : m.Writable)
    (listed : m.mentions ⊆ mentions) : Goes mentions (writeMethod m) fun _ => True := by
  obtain ⟨sig, others⟩ := List.append_subset.1 listed
  obtain ⟨attributes, body⟩ := List.append_subset.1 others
  refine (Goes.lift (Encoding.string_eq_ok writable.name)).bind fun _ _ => ?_
  refine (goes_signature budget sig).bind fun _ encoded => ?_
  refine (goes_blob (List.cons_subset.1 sig).1 encoded).bind fun _ _ => ?_
  refine (goes_writeList (writable.params.imp fun p _ short => ?_)).bind fun _ _ => ?_
  · exact (Goes.lift (Encoding.string_eq_ok short)).imp fun _ _ => trivial
  · refine (goes_writeAttributes budget writable.attributes attributes).bind fun _ _ => ?_
    exact (goes_writeBody? budget writable.body body).bind fun _ _ => .pure trivial

lemma goes_writeType {t : TypeDeclaration} (budget : Budget mentions) (writable : t.Writable)
    (listed : t.mentions ⊆ mentions) : Goes mentions (writeType t) fun _ => True := by
  obtain ⟨base, others⟩ := List.append_subset.1 listed
  obtain ⟨interfaces, others⟩ := List.append_subset.1 others
  obtain ⟨attributes, others⟩ := List.append_subset.1 others
  obtain ⟨fields, methods⟩ := List.append_subset.1 others
  refine (Goes.lift (Encoding.string_eq_ok writable.space)).bind fun _ _ => ?_
  refine (Goes.lift (Encoding.string_eq_ok writable.name)).bind fun _ _ => ?_
  refine (goes_typeRef? budget fun ref href => ?_).bind fun _ _ => ?_
  · exact base (List.mem_map.2 ⟨ref, Option.mem_toList.2 href, rfl⟩)
  refine (goes_writeList ⟨writable.interfaces, fun ref href => ?_⟩).bind fun _ _ => ?_
  · exact goes_typeRef budget (interfaces (List.mem_map.2 ⟨ref, href, rfl⟩))
  refine (goes_writeAttributes budget writable.attributes attributes).bind fun _ _ => ?_
  refine (goes_writeList (writable.fields.imp fun f hf field => ?_)).bind fun _ _ => ?_
  · exact goes_writeField budget field (subset_of_flatMap fields hf)
  refine (goes_writeList (writable.methods.imp fun m hm method => ?_)).bind fun _ _ => .pure trivial
  exact goes_writeMethod budget method (subset_of_flatMap methods hm)

end Image.Building

/-- A module that can be written is written, unless it mentions a method signature that does not fit and
takes more bytes than can be counted; then that is what it is refused for. -/
lemma Module.toBytes_of_writable {m : Module} (budget : Image.Budget m.mentions)
    (writable : m.Writable) :
    (∃ bytes, m.toBytes = .ok bytes)
      ∨ ∃ e s, m.toBytes = .error e ∧ .signature s ∈ m.mentions ∧ s.Refused e
        ∧ ¬ s.Fits (m.distinct .typeRefs).length := by
  have types : Image.Building.Goes m.mentions
      (Image.Building.writeList Image.Building.writeType m.types) fun _ => True :=
    Image.Building.goes_writeList <| writable.types.imp fun t ht type =>
      Image.Building.goes_writeType budget type
        (Image.Building.subset_of_flatMap (List.Subset.refl m.mentions) ht)
  obtain ⟨definitions, b, ok, within, _⟩ | ⟨e, s, failed, listed, refused⟩ :=
    types .empty Image.Builder.within_empty
  · obtain ⟨name, named⟩ := Encoding.string_eq_ok writable.name
    obtain ⟨tables, encoded⟩ := within.encode_isOk budget
    obtain ⟨references, referred⟩ := Image.writeList_isOk (f := Encoding.string)
      (writable.references.imp fun _ _ => Encoding.string_eq_ok)
    exact .inl ⟨_, bind_eq_ok.2 ⟨(definitions, b), ok, bind_eq_ok.2 ⟨name, named,
      bind_eq_ok.2 ⟨tables, encoded, bind_eq_ok.2 ⟨references, referred, rfl⟩⟩⟩⟩⟩
  · refine .inr ⟨e, s, ?_, listed, refused⟩
    unfold Module.toBytes
    rw [failed]
    rfl

end HookWeave

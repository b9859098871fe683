import HookWeave.Proofs.Image.Records
import HookWeave.Proofs.Image.RoundTrip

/-!
# What a written image is found to be

Whatever is read from the image of a module is that module (`Module.readBack_of_ofBytes`), also where
the reader would have been right to refuse it. This goes through the writers one by one: what each of
them writes is found to be nothing but the thing written, with bodies as they are read back. Only the
lists and the trees need an induction, which is that of the writer.
-/

namespace HookWeave
namespace Image
namespace Building

variable {α β : Type} {b b' : Builder} {bytes : Bytes}

/-! ## Lists -/

lemma accumulates_entails : Accumulates Entails :=
  ⟨.refl, .and, .imp⟩

/-- A list is found to be what each of its elements is found to be. -/
lemma entails_writeList_finds {write : α → Building Bytes} {r : Tables → Reader β}
    {R : α → β → Prop} {as : List α} (h : writeList write as b = .ok (bytes, b'))
    (each : ∀ a ∈ as, ∀ b out b', write a b = .ok (out, b') →
      Entails b b' fun tables => (r tables).Finds out (R a)) :
    Entails b b' fun tables => (Reader.list (r tables)).Finds bytes (List.Forall₂ R as) := by
  obtain ⟨count, pieces, counted, rfl, entails⟩ := accumulates_entails.writeList h each
  exact entails.imp fun _ each => Reader.finds_list counted each

/-- A list is found to be itself if each of its elements is. -/
lemma entails_writeList_eq {write : α → Building Bytes} {r : Tables → Reader α} {as : List α}
    (h : writeList write as b = .ok (bytes, b'))
    (each : ∀ a ∈ as, ∀ b out b', write a b = .ok (out, b') →
      Entails b b' fun tables => (r tables).Finds out (· = a)) :
    Entails b b' fun tables => (Reader.list (r tables)).Finds bytes (· = as) := by
  have lists := entails_writeList_finds (R := fun a a' => a' = a) h each
  exact lists.imp fun _ found => found.imp fun _ same => eq_of_forall₂ same fun _ _ _ => id

/-! ## Attributes -/

/-- An argument has to be found only where there is a level left. -/
lemma finds_readArgument {tables : Tables} {levels : Nat} {P : AttributeArgument → Prop}
    (h : (tables.readArgument (levels - 1 + 1)).Finds bytes P) :
    (tables.readArgument levels).Finds bytes P := by
  cases levels with
  | zero => exact Reader.finds_throw _
  | succ levels => exact h

mutual

/-- An argument is found to be itself, whatever the number of levels. -/
lemma entails_writeArgument (a : AttributeArgument) (levels : Nat) {b b' : Builder} {bytes : Bytes}
    (h : writeArgument a b = .ok (bytes, b')) :
    Entails b b' fun tables => (tables.readArgument levels).Finds bytes (· = a) := by
  cases a with
  | null =>
    obtain ⟨rfl, rfl⟩ := run_pure_eq_ok.1 h
    refine .refl fun tables => finds_readArgument ?_
    refine Reader.Reads.bind_finds (s := [_]) (Reader.reads_uint8 ArgumentTag.null) ?_
    exact .pure rfl
  | bool v =>
    obtain ⟨rfl, rfl⟩ := run_pure_eq_ok.1 h
    refine .refl fun tables => finds_readArgument ?_
    refine Reader.Reads.bind_finds (s := [_]) (Reader.reads_uint8 ArgumentTag.bool) ?_
    refine (Reader.reads_uint8 _).finds.bind_pure fun _ same => ?_
    cases v
    all_goals rw [same]; rfl
  | int32 v =>
    obtain ⟨rfl, rfl⟩ := run_pure_eq_ok.1 h
    refine .refl fun tables => finds_readArgument ?_
    refine Reader.Reads.bind_finds (s := [_]) (Reader.reads_uint8 ArgumentTag.int32) ?_
    exact (Reader.reads_int32 v).bind_pure.finds
  | string text =>
    obtain ⟨out, encoded, h⟩ := run_lift_bind_eq_ok.1 h
    obtain ⟨rfl, rfl⟩ := run_pure_eq_ok.1 h
    refine .refl fun tables => finds_readArgument ?_
    refine Reader.Reads.bind_finds (s := [_]) (Reader.reads_uint8 ArgumentTag.string) ?_
    exact (Reader.reads_string encoded).bind_pure.finds
  | type ref =>
    obtain ⟨out, b₁, interned, h⟩ := run_bind_eq_ok.1 h
    obtain ⟨rfl, rfl⟩ := run_pure_eq_ok.1 h
    refine (entails_interning interned fun _ h => interned_typeRef h).imp fun tables read => ?_
    refine finds_readArgument ?_
    refine Reader.Reads.bind_finds (s := [_]) (Reader.reads_uint8 ArgumentTag.type) ?_
    exact (Table.reads_readTypeRef read.2).bind_pure.finds
  | array elements =>
    obtain ⟨count, counted, h⟩ := run_lift_bind_eq_ok.1 h
    obtain ⟨out, b₁, written, h⟩ := run_bind_eq_ok.1 h
    obtain ⟨rfl, rfl⟩ := run_pure_eq_ok.1 h
    refine (entails_writeArguments elements (levels - 1) written).imp fun tables found => ?_
    refine finds_readArgument ?_
    refine Reader.Reads.bind_finds (s := [_]) (Reader.reads_uint8 ArgumentTag.array) ?_
    have list : (Reader.list (tables.readArgument (levels - 1))).Finds (count ++ out) (· = elements) :=
      (Reader.finds_count counted).bind fun _ same => same ▸ found
    exact list.bind_pure fun _ same => congrArg AttributeArgument.array same

/-- Arguments are found to be themselves, one after another. -/
lemma entails_writeArguments (as : List AttributeArgument) (levels : Nat) {b b' : Builder}
    {bytes : Bytes} (h : writeArguments as b = .ok (bytes, b')) :
    Entails b b' fun tables =>
      (Reader.times (tables.readArgument levels) as.length).Finds bytes (· = as) := by
  cases as with
  | nil =>
    obtain ⟨rfl, rfl⟩ := run_pure_eq_ok.1 h
    exact .refl fun tables => .pure rfl
  | cons a as =>
    obtain ⟨front, b₁, first, h⟩ := run_bind_eq_ok.1 h
    obtain ⟨back, b₂, others, h⟩ := run_bind_eq_ok.1 h
    obtain ⟨rfl, rfl⟩ := run_pure_eq_ok.1 h
    have first := entails_writeArgument a levels first
    have others := entails_writeArguments as levels others
    refine (first.and others).imp fun tables ⟨first, others⟩ => ?_
    refine first.bind fun _ same => others.bind_pure fun _ same' => ?_
    rw [same, same']

end

/-- An attribute is found to be itself. -/
lemma entails_writeAttribute {a : Attribute} (h : writeAttribute a b = .ok (bytes, b')) :
    Entails b b' fun tables => tables.readAttribute.Finds bytes (· = a) := by
  obtain ⟨row, constructor, count, arguments, b₁, referred, encoded, counted, written, rfl⟩ :=
    of_writeAttribute_eq_ok h
  have written := entails_writeArguments a.arguments maxArgumentDepth written
  refine ((entails_method referred).and written).imp fun tables ⟨⟨k, same, row⟩, found⟩ => ?_
  cases same
  have made : tables.readConstructor.Reads constructor a.constructor := by
    refine (Reader.reads_row encoded).bind_nil ?_
    simp only [row]
    exact Reader.Reads.pure
  have list : (Reader.list (tables.readArgument maxArgumentDepth)).Finds (count ++ arguments)
      (· = a.arguments) := (Reader.finds_count counted).bind fun _ same => same ▸ found
  exact made.bind_finds (list.bind_pure fun _ same => congrArg (Attribute.mk a.constructor) same)

/-- Attributes are found to be themselves. -/
lemma entails_writeAttributes {attributes : List Attribute}
    (h : writeList writeAttribute attributes b = .ok (bytes, b')) :
    Entails b b' fun tables => (Reader.list tables.readAttribute).Finds bytes (· = attributes) :=
  entails_writeList_eq h fun _ _ _ _ _ written => entails_writeAttribute written

/-! ## Bodies -/

/-- A clause is found to be itself, with its boundaries at the same positions. -/
lemma entails_writeClause {c : ExceptionClause} {l : InstructionList} {e : EncodedBody}
    {s s' : Builder} (encoded : EncodedBody.ofList l allocator s = .ok (e, s'))
    (small : e.code.length < UInt32.size) (h : writeClause e c b = .ok (bytes, b')) :
    Entails b b' fun tables => ∀ d : DecodedBody, d.Matches e l →
      (tables.readClause d).Finds bytes (c.SameBy (l.SamePosition d.instructions)) := by
  obtain ⟨tryStart, tryEnd, handlerStart, handlerEnd, tryLength, handlerLength, catchType, tryStarts,
    tryEnds, handlerStarts, handlerEnds, tried, handled, interned, rfl⟩ := of_writeClause_eq_ok h
  refine (entails_interning interned fun _ h => interned_typeRef? h).imp fun tables typed d same => ?_
  obtain ⟨tryFirst, tryFirstSame, tryWithin, tryFound⟩ := same.start encoded tryStarts
  obtain ⟨tryLast, tryLastSame, tryLe, tryStops⟩ := same.stops encoded tryEnds
  obtain ⟨first, firstSame, within, found⟩ := same.start encoded handlerStarts
  obtain ⟨last, lastSame, le, stops⟩ := same.stops encoded handlerEnds
  have tryOffset : (UInt32.ofNat tryStart).toNat = tryStart :=
    UInt32.toNat_ofNat_of_lt' (Nat.lt_trans tryWithin small)
  have offset : (UInt32.ofNat handlerStart).toNat = handlerStart :=
    UInt32.toNat_ofNat_of_lt' (Nat.lt_trans within small)
  refine (Reader.reads_uint16 c.flags).bind_finds ?_
  refine (Reader.reads_uint32 _).bind_finds ?_
  refine (Reader.reads_uint32 _).bind_finds ?_
  refine (Reader.reads_uint32 _).bind_finds ?_
  refine (Reader.reads_uint32 _).bind_finds ?_
  refine typed.finds.bind_nil fun _ same => ?_
  cases same
  rw [tryOffset, offset]
  split
  · exact Reader.finds_malformed _
  split
  · exact Reader.finds_malformed _
  · rw [regionStart_eq tryFound, regionEnd_eq tried (Nat.lt_of_le_of_lt tryLe small) tryStops,
      regionStart_eq found, regionEnd_eq handled (Nat.lt_of_le_of_lt le small) stops]
    exact .pure ⟨rfl, rfl, tryFirstSame, tryLastSame, firstSame, lastSame⟩

/-- A body is found to be what it reads back as. -/
lemma entails_writeBody {body : MethodBody} (h : writeBody body b = .ok (bytes, b')) :
    Entails b b' fun tables => tables.readBody.Finds bytes body.ReadBack := by
  obtain ⟨locals, e, code, clauses, b₁, b₂, listed, encoded, boxed, written, rfl⟩ :=
    of_writeBody_eq_ok h
  have small := length_lt_of_blob boxed
  have listed : Entails b b₁ fun tables =>
      (Reader.list (SignatureReader.type tables.typeRefs).fresh).Finds locals (· = body.locals) := by
    refine entails_writeList_eq listed fun type _ _ _ _ interned => ?_
    exact (entails_interning interned fun _ h => SignatureReader.found_type h).imp
      fun _ found => SignatureReader.finds_fresh found
  obtain ⟨answered, answers, decodes⟩ := DecodedBody.laidAs_of_ofList encoded
  have resolved := entails_answers answers
  obtain ⟨count, pieces, counted, rfl, each⟩ := accumulates_entails.writeList written fun c _ _ _ _ h =>
    entails_writeClause encoded small h
  refine (listed.and (resolved.and each)).imp fun tables ⟨listed, inverts, each⟩ => ?_
  -- The rows of all references were read, so the code is decoded to the same code.
  obtain ⟨d, decoded, same, laid⟩ := decodes tables.resolver inverts small
  have found := Reader.finds_list counted (each.imp fun _ _ h => h d same)
  refine (Reader.reads_uint16 body.maxStack).bind_finds ?_
  refine Reader.Reads.bind_finds (s := [_]) (reads_readInit body.initLocals) ?_
  refine listed.bind fun types typed => ?_
  cases typed
  obtain ⟨size, sized, boxed⟩ := bind_eq_ok.1 boxed
  cases boxed
  rw [List.append_assoc]
  refine (Reader.finds_count sized).bind fun n same' => ?_
  cases same'
  refine (Reader.reads_take e.code).bind_finds ?_
  rw [decoded]
  refine Reader.Reads.bind_finds (s := []) Reader.Reads.pure ?_
  refine found.bind_pure fun cs sameClauses => ?_
  exact ⟨⟨rfl, rfl, rfl, same.same, sameClauses⟩, laid⟩

/-- The body of a method is found to be what it reads back as, if there is one. -/
lemma entails_writeBody? {body : Option MethodBody} (name : String)
    (h : writeBody? body b = .ok (bytes, b')) :
    Entails b b' fun tables =>
      (tables.readBody? name).Finds bytes (Option.Rel MethodBody.ReadBack body) := by
  cases body with
  | none =>
    obtain ⟨rfl, rfl⟩ := run_pure_eq_ok.1 h
    refine .refl fun tables => ?_
    refine (Reader.reads_uint8 0).finds.bind_nil fun _ same => ?_
    cases same
    exact .pure .none
  | some body =>
    obtain ⟨out, b₁, written, h⟩ := run_bind_eq_ok.1 h
    obtain ⟨rfl, rfl⟩ := run_pure_eq_ok.1 h
    refine (entails_writeBody written).imp fun tables found => ?_
    refine Reader.Reads.bind_finds (s := [_]) (Reader.reads_uint8 1) ?_
    exact found.bind_pure fun _ same => .some same

/-! ## Definitions -/

/-- A field is found to be itself. -/
lemma entails_writeField {f : FieldDeclaration} (h : writeField f b = .ok (bytes, b')) :
    Entails b b' fun tables => tables.readField.Finds bytes (· = f) := by
  obtain ⟨name, sig, boxed, attributes, b₁, named, interned, box, attributed, rfl⟩ :=
    of_writeField_eq_ok h
  have typed := entails_interning interned fun _ h => SignatureReader.found_field h
  refine (typed.and (entails_writeAttributes attributed)).imp fun tables ⟨typed, attributed⟩ => ?_
  refine (Reader.reads_uint16 f.flags).bind_finds ((Reader.reads_string named).bind_finds ?_)
  refine (Reader.finds_blob box).bind fun type gave => ?_
  cases (SignatureReader.finds_fresh typed).of_gave gave
  exact attributed.bind_pure fun _ same => congrArg (FieldDeclaration.mk f.name f.type f.flags) same

/-- A method is found to be what it reads back as. -/
lemma entails_writeMethod {m : MethodDeclaration} (h : writeMethod m b = .ok (bytes, b')) :
    Entails b b' fun tables => tables.readMethod.Finds bytes m.ReadBack := by
  obtain ⟨name, sig, boxed, params, attributes, body, b₁, b₂, b₃, named, interned, box, listed, attributed,
    written, rfl⟩ := of_writeMethod_eq_ok h
  have typed := entails_interning interned fun _ h => SignatureReader.found_method h
  obtain ⟨count, pieces, counted, rfl, each⟩ := accumulates_entails.writeList listed fun p hp _ _ _ h => by
    obtain ⟨encoded, rfl⟩ := run_lift_eq_ok.1 h
    exact Entails.refl (P := fun _ => Encoding.string p.name = .ok _) fun _ => encoded
  have attributed := entails_writeAttributes attributed
  have written := entails_writeBody? m.name written
  refine (typed.and (each.and (attributed.and written))).imp
    fun tables ⟨typed, each, attributed, found⟩ => ?_
  refine (Reader.reads_uint16 m.flags).bind_finds ((Reader.reads_string named).bind_finds ?_)
  refine (Reader.finds_blob box).bind fun type gave => ?_
  cases (SignatureReader.finds_fresh typed).of_gave gave
  refine Reader.finds_guard fun _ => ?_
  rw [List.append_assoc]
  refine (Reader.finds_count counted).bind fun n same => Reader.finds_guard fun _ => ?_
  refine (reads_readParams each).1.bind_finds ?_
  refine attributed.bind fun as same => found.bind_pure fun body' same' => ?_
  cases same
  exact ⟨body', same', rfl⟩

/-- A type is found to be what it reads back as. -/
lemma entails_writeType {t : TypeDeclaration} (h : writeType t b = .ok (bytes, b')) :
    Entails b b' fun tables => tables.readType.Finds bytes t.ReadBack := by
  obtain ⟨space, name, base, interfaces, attributes, fields, methods, b₁, b₂, b₃, b₄, spaced, named, based,
    implemented, attributed, fielded, written, rfl⟩ := of_writeType_eq_ok h
  have based := entails_interning based fun _ h => interned_typeRef? h
  have implemented : Entails b₁ b₂ fun tables =>
      (Reader.list tables.typeRefs.readTypeRef).Finds interfaces (· = t.interfaces) := by
    refine entails_writeList_eq implemented fun ref _ _ _ _ h => ?_
    exact (entails_interning h fun _ h => interned_typeRef h).imp
      fun _ read => (Table.reads_readTypeRef read.2).finds
  have attributed := entails_writeAttributes attributed
  have fielded : Entails b₃ b₄ fun tables =>
      (Reader.list tables.readField).Finds fields (· = t.fields) :=
    entails_writeList_eq fielded fun _ _ _ _ _ h => entails_writeField h
  have written : Entails b₄ b' fun tables => (Reader.list tables.readMethod).Finds methods
      (List.Forall₂ MethodDeclaration.ReadBack t.methods) :=
    entails_writeList_finds written fun _ _ _ _ _ h => entails_writeMethod h
  refine (based.and (implemented.and (attributed.and (fielded.and written)))).imp
    fun tables ⟨base, implemented, attributed, fielded, found⟩ => ?_
  refine (Reader.reads_uint32 t.flags).bind_finds ((Reader.reads_string spaced).bind_finds ?_)
  refine (Reader.reads_string named).bind_finds (base.bind_finds ?_)
  refine implemented.bind fun _ same => attributed.bind fun _ same' => ?_
  refine fielded.bind fun _ same'' => found.bind_pure fun ms methods => ?_
  rw [same, same', same'']
  exact ⟨ms, methods, rfl⟩

end Building

/-! ## Images -/

/-- The parts of an image are found one after another, and nothing behind them. -/
lemma finds_read_image {m : Module} {b : Builder} {name tables references definitions : Bytes}
    (named : Encoding.string m.name = .ok name) (tabled : Tables.read.Finds tables (·.Records b))
    (referred : (Reader.list Reader.string).Reads references m.references)
    (defined : ∀ found : Tables, found.Records b → (Reader.list found.readType).Finds definitions
      (List.Forall₂ TypeDeclaration.ReadBack m.types)) :
    read.Finds (magic ++ (Encoding.uint16 version ++ (name ++ (tables ++ (references
      ++ definitions))))) fun n => ∃ types, List.Forall₂ TypeDeclaration.ReadBack m.types types
        ∧ n = .ofParts m.name m.references types := by
  refine (Reader.reads_take magic).bind_finds (Reader.finds_guard fun _ => ?_)
  refine (Reader.reads_uint16 version).bind_finds (Reader.finds_guard fun _ => ?_)
  refine (Reader.reads_string named).bind_finds (tabled.bind fun found records => ?_)
  refine referred.bind_finds ((defined found records).bind_nil fun types same => ?_)
  intro pos rest n c read
  rw [Reader.get_bind] at read
  split at read
  · cases read
  · cases read
    exact ⟨⟨types, same, rfl⟩, rfl⟩

end Image

/-- Whatever is read from the image of a module is the module as it is read back. -/
lemma Module.readBack_of_ofBytes {m n : Module} {bytes : Bytes} (h : m.toBytes = .ok bytes)
    (read : Module.ofBytes bytes = .ok n) :
    ∃ types, List.Forall₂ TypeDeclaration.ReadBack m.types types
      ∧ n = .ofParts m.name m.references types := by
  obtain ⟨⟨definitions, builder⟩, defined, h⟩ := bind_eq_ok.1 h
  obtain ⟨name, named, h⟩ := bind_eq_ok.1 h
  obtain ⟨tables, encoded, h⟩ := bind_eq_ok.1 h
  obtain ⟨references, referred, h⟩ := bind_eq_ok.1 h
  cases h
  have entails := Image.Building.entails_writeList_finds defined fun _ _ _ _ _ written =>
    Image.Building.entails_writeType written
  have empty : Image.Builder.empty.Definite := fun bytes listed => nomatch listed
  have referred : (Reader.list Reader.string).Reads references m.references :=
    Image.reads_writeList_eq referred fun _ _ _ h =>
      ⟨Reader.string_ne_nil h, Reader.reads_string h⟩
  have found := Image.finds_read_image named (Image.finds_read encoded (entails.definite empty))
    referred entails.holds
  obtain ⟨file, filed, valued⟩ := bind_eq_ok.1 read
  unfold Reader.value at valued
  split at valued
  · next n' c ran =>
    cases valued
    refine found.of_gave ⟨0, [], c, ?_⟩
    rw [List.append_nil]
    cases filed
    exact ran
  · cases valued

end HookWeave

import HookWeave.Proofs.Code.Decoded
import HookWeave.Proofs.Image.Writable

/-!
# What an image can hold

Whatever bytes an image has, what is read from it can be written and read again (`Module.Loaded`): its
types and arguments nest less deep than the reader admits, its names and lists are short enough, its
code is settled and has the identities 0, 1, 2 and so on. This follows from the reads one by one
(`Reader.Gives`): what the tables hold was read before the definitions that name it.
-/

namespace HookWeave

/-! ## What was loaded -/

/-- The type nests less deep than the reader admits, and what it mentions can be written. -/
structure TypeSig.Loaded (t : TypeSig) : Prop where
  shallow : t.Shallow
  mentions : ∀ e ∈ t.mentions, e.Writable

/-- The types of the signature nest less deep than the reader admits, and what it mentions can be
written. -/
structure MethodSig.Loaded (s : MethodSig) : Prop where
  shallow : s.Shallow
  mentions : ∀ e ∈ s.mentions, e.Writable

/-- The types of the reference nest less deep than the reader admits, and what it mentions can be
written. -/
structure Reference.Loaded (r : Reference) : Prop where
  shallow : r.Shallow
  mentions : ∀ e ∈ r.mentions, e.Writable

/-- The attribute can be read and written, and so can what it mentions. -/
structure Attribute.Loaded (a : Attribute) : Prop where
  admitted : a.Admitted
  writable : a.Writable
  mentions : ∀ e ∈ a.mentions, e.Writable

/-- The clause can be read and written as one of the code, and so can what it mentions. -/
structure ExceptionClause.Loaded (l : InstructionList) (c : ExceptionClause) : Prop where
  usual : c.Usual
  ordered : c.Ordered l
  mentions : ∀ e ∈ c.mentions, e.Writable

/-- The instructions of the body have the identities 0, 1, 2 and so on. -/
def MethodBody.Numbered (b : MethodBody) : Prop :=
  ∃ code, b.instructions = .ofCode code

/-- The body can be read and written, and so can what it mentions. -/
structure MethodBody.Loaded (b : MethodBody) : Prop where
  readable : b.Readable
  writable : b.Writable
  mentions : ∀ e ∈ b.mentions, e.Writable
  numbered : b.Numbered

/-- The field can be read and written, and so can what it mentions. -/
structure FieldDeclaration.Loaded (f : FieldDeclaration) : Prop where
  admitted : f.Admitted
  writable : f.Writable
  mentions : ∀ e ∈ f.mentions, e.Writable

/-- The method can be read and written, and so can what it mentions. -/
structure MethodDeclaration.Loaded (m : MethodDeclaration) : Prop where
  admitted : m.Admitted
  writable : m.Writable
  mentions : ∀ e ∈ m.mentions, e.Writable
  numbered : ∀ b ∈ m.body, b.Numbered

/-- The type can be read and written, and so can what it mentions. -/
structure TypeDeclaration.Loaded (t : TypeDeclaration) : Prop where
  admitted : t.Admitted
  writable : t.Writable
  mentions : ∀ e ∈ t.mentions, e.Writable
  numbered : ∀ m ∈ t.methods, ∀ b ∈ m.body, b.Numbered

/-- The module is made of its parts, can be read and written, and so can what it mentions. -/
structure Module.Loaded (m : Module) : Prop where
  parts : m = .ofParts m.name m.references m.types
  admitted : ∀ t ∈ m.types, t.Admitted
  writable : m.Writable
  mentions : ∀ e ∈ m.mentions, e.Writable
  numbered : ∀ t ∈ m.types, ∀ m ∈ t.methods, ∀ b ∈ m.body, b.Numbered

/-- All of what the elements mention can be written if what each of them mentions can. -/
lemma writable_of_countable {α : Type} {P : α → Prop} {f : α → List Mention} {as : List α}
    (h : Countable P as) (each : ∀ a, P a → ∀ e ∈ f a, e.Writable) :
    ∀ e ∈ as.flatMap f, e.Writable :=
  List.forall_mem_flatMap.2 fun a ha => each a (h.2 a ha)

/-! ## Signatures -/

/-- The names in the table are short enough. -/
def Table.Named (table : Table TypeRef) : Prop :=
  ∀ t ∈ table.rows, (Mention.typeRef t).Writable

namespace Table

variable {table : Table TypeRef}

lemma gives_readTypeRef? (named : table.Named) :
    table.readTypeRef?.Gives fun t => ∀ ref ∈ t, (Mention.typeRef ref).Writable := by
  refine .after fun row => ?_
  split
  · exact .pure fun ref href => nomatch href
  · next index =>
    split
    · next ref found =>
      refine .pure fun ref' same => ?_
      cases same
      unfold typeRef at found
      split at found
      · next listed =>
        cases found
        exact named ref (List.mem_of_getElem? listed)
      · cases found
    · exact Reader.gives_throw _

lemma gives_readTypeRef (named : table.Named) :
    table.readTypeRef.Gives fun t => (Mention.typeRef t).Writable := by
  refine (gives_readTypeRef? named).bind fun found writable => ?_
  split
  · exact .pure (writable _ rfl)
  · exact .after fun _ => Reader.gives_malformed _

end Table

namespace SignatureReader

variable {α β : Type} {r : SignatureReader α} {f : α → SignatureReader β} {P : α → Prop}
  {Q : β → Prop} {a : α} {d m n : Nat} {table : Table TypeRef}

/-- From one depth the read goes to another, and whatever it gives has the property. -/
def Gives (r : SignatureReader α) (d n : Nat) (P : α → Prop) : Prop :=
  ∀ c a s, r ⟨c, d⟩ = .ok a s → P a ∧ s.depth = n

lemma Gives.pure (h : P a) : (Pure.pure a : SignatureReader α).Gives d d P := by
  intro c a' s read
  cases read
  exact ⟨h, rfl⟩

lemma Gives.bind (hr : r.Gives d m P) (hf : ∀ a, P a → (f a).Gives m n Q) :
    (r >>= f).Gives d n Q := by
  intro c b s read
  obtain ⟨a, ⟨c₁, m'⟩, first, second⟩ := edit_bind_eq_ok.1 read
  obtain ⟨given, same⟩ := hr c a _ first
  cases same
  exact hf a given c₁ b s second

lemma Gives.map {g : α → β} (hr : r.Gives d n P) (hg : ∀ a, P a → Q (g a)) :
    (g <$> r).Gives d n Q := by
  rw [map_eq_pure_bind]
  exact hr.bind fun a given => .pure (hg a given)

lemma gives_throw (e : Fault) : (throw e : SignatureReader α).Gives d n P := by
  intro c a s read
  cases read

lemma gives_lift {r : Reader α} (h : r.Gives P) : (lift r).Gives d d P := by
  intro c a s read
  unfold lift at read
  split at read
  · next first =>
    cases read
    exact ⟨h _ _ _ first, rfl⟩
  · cases read

lemma gives_enter : enter.Gives d (d + 1) fun _ => True := by
  intro c a s read
  cases read
  exact ⟨trivial, rfl⟩

lemma gives_leave : leave.Gives (d + 1) d fun _ => True := by
  intro c a s read
  cases read
  exact ⟨trivial, rfl⟩

/-- What is read from depth 0 on is read the same way with bytes alone. -/
lemma gives_fresh (h : r.Gives 0 n P) : (fresh r).Gives P := by
  intro c a c' read
  unfold fresh at read
  split at read
  · next first =>
    cases read
    exact (h _ _ _ first).1
  · cases read

/-- A type nests less deep than there are levels, however the bytes go on. -/
lemma gives_typeWithin (named : table.Named) (levels : Nat) :
    (typeWithin table levels).Gives d d
      fun t => t.nesting < levels ∧ ∀ e ∈ t.mentions, e.Writable := by
  induction levels generalizing d with
  | zero => exact gives_enter.bind fun _ _ => gives_throw _
  | succ levels ih =>
    have name := gives_lift (d := d + 1) (Table.gives_readTypeRef named)
    -- However the type was read, the level is left again.
    have ends : ∀ t : TypeSig, (t.nesting < levels + 1 ∧ ∀ e ∈ t.mentions, e.Writable) →
        (do leave; return t : SignatureReader TypeSig).Gives (d + 1) d
          fun t => t.nesting < levels + 1 ∧ ∀ e ∈ t.mentions, e.Writable :=
      fun t typed => gives_leave.bind fun _ _ => .pure typed
    refine gives_enter.bind fun _ _ => ?_
    refine (gives_lift (Reader.gives_anything Reader.uint8)).bind fun code _ => ?_
    dsimp only
    split
    · exact ends _ ⟨Nat.succ_pos _, fun e he => nomatch he⟩
    · split
      · refine (name.map fun ref writable => ?_).bind ends
        exact ⟨Nat.succ_pos _, List.forall_mem_singleton.2 writable⟩
      · split
        · refine (name.map fun ref writable => ?_).bind ends
          exact ⟨Nat.succ_pos _, List.forall_mem_singleton.2 writable⟩
        · split
          · exact (ih.map fun t typed => ⟨Nat.succ_lt_succ typed.1, typed.2⟩).bind ends
          · split
            · exact (ih.map fun t typed => ⟨Nat.succ_lt_succ typed.1, typed.2⟩).bind ends
            · intro c a s read
              cases read

lemma gives_type (named : table.Named) : (type table).Gives 0 0 TypeSig.Loaded := by
  intro c t s read
  obtain ⟨⟨nested, mentions⟩, same⟩ := gives_typeWithin named SignatureReader.maxNesting c t s read
  exact ⟨⟨nested, mentions⟩, same⟩

lemma gives_types (named : table.Named) (n : Nat) :
    (types table n).Gives 0 0 fun ts => ts.length = n ∧ ∀ t ∈ ts, t.Loaded := by
  induction n with
  | zero => exact .pure ⟨rfl, fun t ht => nomatch ht⟩
  | succ n ih =>
    refine (gives_type named).bind fun t first => ih.bind fun ts others => .pure ?_
    exact ⟨congrArg (· + 1) others.1, List.forall_mem_cons.2 ⟨first, others.2⟩⟩

end SignatureReader

/-- A signature whose types were loaded, few enough of them, is as good as loaded. -/
lemma MethodSig.loaded_of_types {s : MethodSig} (ret : s.ret.Loaded)
    (params : Countable TypeSig.Loaded s.params) : s.Loaded := by
  have shallow : s.Shallow := ⟨ret.shallow, fun t ht => (params.2 t ht).shallow⟩
  refine ⟨shallow, List.forall_mem_cons.2 ⟨⟨params.1, shallow⟩, ?_⟩⟩
  exact List.forall_mem_append.2 ⟨ret.mentions, writable_of_countable params fun _ t => t.mentions⟩

/-- A loaded signature has few enough parameters to be counted. -/
lemma MethodSig.Loaded.few {s : MethodSig} (h : s.Loaded) :
    s.params.length ≤ Encoding.maxCompressed :=
  (List.forall_mem_cons.1 h.mentions).1.1

/-- Whether there is a receiver does not matter. -/
lemma MethodSig.Loaded.congr {s t : MethodSig} (h : s.Loaded) (ret : t.ret = s.ret)
    (params : t.params = s.params) : t.Loaded := by
  obtain ⟨receiver, _, _⟩ := t
  cases ret
  cases params
  have shallow : MethodSig.Shallow ⟨receiver, s.ret, s.params⟩ := ⟨h.shallow.ret, h.shallow.params⟩
  exact ⟨shallow, List.forall_mem_cons.2 ⟨⟨h.few, shallow⟩, (List.forall_mem_cons.1 h.mentions).2⟩⟩

namespace SignatureReader

variable {table : Table TypeRef}

lemma gives_method (named : table.Named) : (method table).Gives 0 0 MethodSig.Loaded := by
  refine (gives_lift (Reader.gives_anything Reader.uint8)).bind fun mark _ => ?_
  have rest : (do
      let count ← lift Reader.count
      let ret ← type table
      let params ← types table count
      return ⟨mark = ElementCode.hasThis, ret, params⟩ : SignatureReader MethodSig).Gives 0 0
        MethodSig.Loaded := by
    refine (gives_lift Reader.gives_count).bind fun count small => ?_
    refine (gives_type named).bind fun ret typed => ?_
    refine (gives_types named count).bind fun params ⟨length, each⟩ => .pure ?_
    exact MethodSig.loaded_of_types typed ⟨Nat.le_trans (Nat.le_of_eq length) small, each⟩
  split
  · exact (gives_throw (P := fun _ => True) (n := 0) _).bind fun _ _ => rest
  · exact rest

lemma gives_field (named : table.Named) : (field table).Gives 0 0 TypeSig.Loaded := by
  refine (gives_lift (Reader.gives_anything Reader.uint8)).bind fun mark _ => ?_
  split
  · exact (gives_throw (P := fun _ => True) (n := 0) _).bind fun _ _ => gives_type named
  · exact gives_type named

end SignatureReader

namespace Image

/-! ## Tables -/

/-- What a member reference names, as a reference. -/
def MemberRef.reference : MemberRef → Reference
  | method m => .method m
  | field f => .field f

/-- All rows of the tables were loaded. -/
structure Tables.Loaded (tables : Tables) : Prop where
  strings : ∀ s ∈ tables.strings, (Reference.string s).Loaded
  typeRefs : tables.typeRefs.Named
  typeSpecs : ∀ t ∈ tables.typeSpecs, (Reference.type t).Loaded
  members : ∀ m ∈ tables.members, m.reference.Loaded

namespace Tables

variable {tables : Tables} {table : Table TypeRef}

lemma gives_readTypeRef : readTypeRef.Gives fun t => (Mention.typeRef t).Writable := by
  refine Reader.gives_string.bind fun scope short => ?_
  refine Reader.gives_string.bind fun space short' => ?_
  exact Reader.gives_string.bind fun name named => .pure ⟨short, short', named⟩

lemma gives_readTypeSpec (named : table.Named) :
    (readTypeSpec table).Gives fun t => (Reference.type t).Loaded := by
  refine Reader.gives_blob ((SignatureReader.gives_fresh (SignatureReader.gives_type named)).imp ?_)
  exact fun t typed => ⟨typed.shallow, List.forall_mem_cons.2 ⟨typed.shallow, typed.mentions⟩⟩

lemma gives_readMember (named : table.Named) :
    (readMember table).Gives fun m => m.reference.Loaded := by
  refine .after fun kind => ?_
  refine (Table.gives_readTypeRef named).bind fun owner owned => ?_
  refine Reader.gives_string.bind fun name short => Reader.gives_blob ?_
  unfold readMemberSig
  split
  · refine (SignatureReader.gives_fresh (SignatureReader.gives_method named)).map fun sig typed => ?_
    exact ⟨typed.shallow, List.forall_mem_cons.2 ⟨short, List.forall_mem_cons.2
      ⟨owned, typed.mentions⟩⟩⟩
  · split
    · refine (SignatureReader.gives_fresh (SignatureReader.gives_field named)).map fun type typed => ?_
      exact ⟨typed.shallow, List.forall_mem_cons.2 ⟨⟨short, typed.shallow⟩,
        List.forall_mem_cons.2 ⟨owned, typed.mentions⟩⟩⟩
    · exact Reader.gives_malformed _

lemma gives_read : read.Gives Loaded := by
  refine (Reader.gives_list Reader.gives_string).bind fun strings short => ?_
  refine (Reader.gives_list gives_readTypeRef).bind fun typeRefs named => ?_
  refine (Reader.gives_list (gives_readTypeSpec named.2)).bind fun typeSpecs typed => ?_
  refine (Reader.gives_list (gives_readMember named.2)).bind fun members listed => .pure ?_
  exact ⟨fun s hs => ⟨trivial, List.forall_mem_singleton.2 (short.2 s hs)⟩, named.2, typed.2,
    listed.2⟩

/-- A row that is found is in the table. -/
lemma mem_of_row {α : Type} {rows : List α} {t : Token} {a : α} (h : row rows t = .ok a) :
    a ∈ rows := by
  unfold row at h
  split at h
  · cases h
  · split at h
    · next found =>
      cases h
      exact List.mem_of_getElem? found
    · cases h

lemma mem_of_member {t : Token} {m : MemberRef} (h : tables.member t = .ok m) :
    m ∈ tables.members := by
  unfold Tables.member at h
  split at h
  · exact mem_of_row h
  · cases h

/-- What a token of loaded tables is resolved to was loaded. -/
lemma Loaded.of_resolves {token : Token} {r : Reference} (h : tables.Loaded)
    (resolves : tables.resolver.Resolves token r) : r.Loaded := by
  cases r with
  | method m =>
    obtain ⟨found, member, same⟩ := bind_eq_ok.1 resolves
    have listed := h.members found (mem_of_member member)
    cases found with
    | method _ =>
      cases same
      exact listed
    | field _ => cases same
  | field f =>
    obtain ⟨found, member, same⟩ := bind_eq_ok.1 resolves
    have listed := h.members found (mem_of_member member)
    cases found with
    | method _ => cases same
    | field _ =>
      cases same
      exact listed
  | type t =>
    unfold TokenResolver.Resolves resolver at resolves
    dsimp only at resolves
    split at resolves
    · exact h.typeSpecs t (mem_of_row resolves)
    · cases resolves
  | string s =>
    unfold TokenResolver.Resolves resolver at resolves
    dsimp only at resolves
    split at resolves
    · exact h.strings s (mem_of_row resolves)
    · cases resolves

/-! ## Attributes -/

/-- The arguments can be written, and so can what they mention, if this holds of each of them. -/
lemma writable_of_arguments {as : List AttributeArgument}
    (each : ∀ a ∈ as, a.Writable ∧ ∀ e ∈ a.mentions, e.Writable) :
    AttributeArgument.AllWritable as ∧ ∀ e ∈ AttributeArgument.mentionsAll as, e.Writable := by
  induction as with
  | nil => exact ⟨trivial, fun e he => nomatch he⟩
  | cons a as ih =>
    obtain ⟨first, others⟩ := List.forall_mem_cons.1 each
    obtain ⟨writable, mentions⟩ := ih others
    exact ⟨⟨first.1, writable⟩, List.forall_mem_append.2 ⟨first.2, mentions⟩⟩

lemma gives_readArgument (h : tables.Loaded) (levels : Nat) : (tables.readArgument levels).Gives
    fun a => a.levels ≤ levels ∧ a.Writable ∧ ∀ e ∈ a.mentions, e.Writable := by
  induction levels with
  | zero => exact Reader.gives_throw _
  | succ levels ih =>
    refine .after fun tag => ?_
    split
    · exact .pure ⟨Nat.succ_pos _, trivial, fun e he => nomatch he⟩
    split
    · exact .after fun value => .pure ⟨Nat.succ_pos _, trivial, fun e he => nomatch he⟩
    split
    · exact .after fun value => .pure ⟨Nat.succ_pos _, trivial, fun e he => nomatch he⟩
    split
    · refine Reader.gives_string.bind fun s short => ?_
      exact .pure ⟨Nat.succ_pos _, short, fun e he => nomatch he⟩
    split
    · refine (Table.gives_readTypeRef h.typeRefs).bind fun t named => ?_
      exact .pure ⟨Nat.succ_pos _, trivial, List.forall_mem_singleton.2 named⟩
    split
    · refine (Reader.gives_list ih).bind fun elements ⟨length, each⟩ => .pure ?_
      obtain ⟨writable, mentions⟩ := writable_of_arguments fun a ha => (each a ha).2
      have admitted := AttributeArgument.levelsAll_le fun a ha => (each a ha).1
      exact ⟨Nat.succ_le_succ admitted, ⟨length, writable⟩, mentions⟩
    · exact Reader.gives_malformed _

lemma gives_readConstructor (h : tables.Loaded) :
    tables.readConstructor.Gives fun m => (Reference.method m).Loaded := by
  refine .after fun row => ?_
  split
  · exact Reader.gives_malformed _
  · split
    · next found => exact .pure (h.members _ (List.mem_of_getElem? found))
    · exact Reader.gives_malformed _

lemma gives_readAttribute (h : tables.Loaded) : tables.readAttribute.Gives Attribute.Loaded := by
  refine (gives_readConstructor h).bind fun constructor made => ?_
  refine (Reader.gives_list (gives_readArgument h maxArgumentDepth)).bind
    fun arguments ⟨length, each⟩ => .pure ?_
  obtain ⟨writable, mentions⟩ := writable_of_arguments fun a ha => (each a ha).2
  have admitted := AttributeArgument.levelsAll_le fun a ha => (each a ha).1
  exact ⟨⟨made.shallow, admitted⟩, ⟨length, writable⟩,
    List.forall_mem_append.2 ⟨made.mentions, mentions⟩⟩

/-! ## Bodies -/

variable {code : DecodedBody} {ps : List Placed}

/-- The instruction that is found at an offset starts there. -/
lemma start_of_instructionAt {o : Nat} {id : InstrId} (d : code.Decodes tables.resolver ps)
    (h : code.instructionAt o = .ok (some id)) :
    ∃ k p, code.instructions.position? id = some k ∧ ps[k]? = some p ∧ p.start = o := by
  unfold DecodedBody.instructionAt at h
  split at h
  · cases h
  · split at h
    · next k found =>
      cases h
      rw [d.offsets] at found
      obtain ⟨bound, start, _⟩ := List.idxOf?_eq_some_iff.1 found
      rw [List.length_map] at bound
      rw [List.getElem_map] at start
      refine ⟨k, ps[k], ?_, List.getElem?_eq_getElem bound, start⟩
      obtain ⟨instructions, numbered⟩ := d.numbered
      rw [numbered]
      refine InstructionList.position?_ofCode ?_
      have placed := congrArg List.length d.settled.placed
      rw [numbered, List.length_map] at placed
      exact Nat.lt_of_lt_of_eq bound (placed.trans
        (InstructionList.forall₂_number instructions).length_eq.symm)
    · cases h

/-- A region of decoded code stops no earlier than it starts. -/
lemma region_of_offsets {o n : Nat} {start : InstrId} {stop : Option InstrId}
    (d : code.Decodes tables.resolver ps) (first : regionStart code o = .ok start)
    (last : regionEnd code o n = .ok stop) : code.instructions.Region start stop := by
  have first : code.instructionAt o = .ok (some start) := by
    obtain ⟨found, at_, same⟩ := bind_eq_ok.1 first
    cases found with
    | some id =>
      cases same
      exact at_
    | none => cases same
  obtain ⟨i, p, position, hp, start_eq⟩ := start_of_instructionAt d first
  refine ⟨i, position, fun id same => ?_⟩
  cases same
  unfold regionEnd at last
  split at last
  · obtain ⟨j, q, position', hq, stop_eq⟩ := start_of_instructionAt d last
    refine ⟨j, position', Nat.le_of_not_lt fun before => ?_⟩
    -- An instruction in front of the first would start in front of it.
    obtain ⟨boundi, rfl⟩ := List.getElem?_eq_some_iff.1 hp
    obtain ⟨boundj, rfl⟩ := List.getElem?_eq_some_iff.1 hq
    have ascends := List.pairwise_iff_getElem.1
      (List.pairwise_map.1 d.settled.consecutive.ascending) j i boundj boundi before
    omega
  · cases last

/-- A clause whose flags are admitted and say whether it has a type is usual. -/
lemma usual_of_flags {c : ExceptionClause} (admitted : isClauseFlags c.flags = true)
    (typed : (c.flags = ExceptionClause.catchFlags) = (c.catchType.isSome = true)) : c.Usual := by
  by_cases catches : c.flags = ExceptionClause.catchFlags
  · exact .inl ⟨catches, Option.isSome_iff_ne_none.1 (typed.mp catches)⟩
  · refine .inr ⟨?_, Option.not_isSome_iff_eq_none.1 fun some => catches (typed.mpr some)⟩
    unfold isClauseFlags at admitted
    rw [Bool.or_eq_true, Bool.or_eq_true, decide_eq_true_eq, decide_eq_true_eq,
      decide_eq_true_eq] at admitted
    obtain (flags | flags) | flags := admitted
    · exact absurd flags catches
    · exact .inl flags
    · exact .inr flags

lemma gives_readClause (h : tables.Loaded) (d : code.Decodes tables.resolver ps) :
    (tables.readClause code).Gives (·.Loaded code.instructions) := by
  refine .after fun flags => .after fun tryOffset => .after fun tryLength => ?_
  refine .after fun handlerOffset => .after fun handlerLength => ?_
  refine (Table.gives_readTypeRef? h.typeRefs).bind fun catchType named => ?_
  split
  · exact Reader.gives_malformed _
  split
  · exact Reader.gives_malformed _
  next admitted typed =>
  refine (Reader.gives_ofExcept fun _ found => found).bind fun tryStart tryStarts => ?_
  refine (Reader.gives_ofExcept fun _ found => found).bind fun tryEnd tryEnds => ?_
  refine (Reader.gives_ofExcept fun _ found => found).bind fun handlerStart handlerStarts => ?_
  refine (Reader.gives_ofExcept fun _ found => found).bind fun handlerEnd handlerEnds => .pure ?_
  refine ⟨?_, ⟨region_of_offsets d tryStarts tryEnds, region_of_offsets d handlerStarts handlerEnds⟩, ?_⟩
  · rw [Bool.not_eq_true', Bool.not_eq_false] at admitted
    exact usual_of_flags admitted (not_ne_iff.1 typed)
  · intro e he
    obtain ⟨ref, href, rfl⟩ := List.mem_map.1 he
    exact named ref (Option.mem_toList.1 href)

lemma gives_readBody (h : tables.Loaded) : tables.readBody.Gives MethodBody.Loaded := by
  refine .after fun maxStack => .after fun init => ?_
  refine (Reader.gives_list (SignatureReader.gives_fresh
    (SignatureReader.gives_type h.typeRefs))).bind fun locals typed => ?_
  refine Reader.gives_count.bind fun size small => ?_
  refine (Reader.gives_take size).bind fun bytes length => ?_
  refine (Reader.gives_ofExcept fun _ decoded => decoded).bind fun code decoded => ?_
  obtain ⟨ps, d⟩ := DecodedBody.decodes_of_ofBytes decoded (length ▸ small)
  refine (Reader.gives_list (gives_readClause h d)).bind fun clauses ordered => .pure ?_
  have references : ∀ r ∈ code.instructions.references, r.Loaded := by
    intro r hr
    obtain ⟨token, resolves⟩ := d.resolved r hr
    exact h.of_resolves resolves
  refine ⟨⟨fun t ht => (typed.2 t ht).shallow, fun r hr => (references r hr).shallow,
    fun c hc => (ordered.2 c hc).usual⟩, ⟨typed.1, ⟨ps, d.settled⟩, ordered.imp fun _ _ c => c.ordered⟩,
    ?_, d.numbered⟩
  refine List.forall_mem_append.2 ⟨writable_of_countable typed fun _ t => t.mentions, ?_⟩
  exact List.forall_mem_append.2 ⟨List.forall_mem_flatMap.2 fun r hr => (references r hr).mentions,
    writable_of_countable ordered fun _ c => c.mentions⟩

lemma gives_readBody? (h : tables.Loaded) (name : String) :
    (tables.readBody? name).Gives fun body => ∀ b ∈ body, b.Loaded := by
  refine .after fun mark => ?_
  split
  · exact .pure fun b hb => nomatch hb
  split
  · refine (gives_readBody h).bind fun body loaded => .pure fun b same => ?_
    cases same
    exact loaded
  · exact Reader.gives_malformed _

/-! ## Definitions -/

lemma gives_readAttributes (h : tables.Loaded) :
    (Reader.list tables.readAttribute).Gives (Countable Attribute.Loaded) :=
  Reader.gives_list (gives_readAttribute h)

lemma gives_readField (h : tables.Loaded) : tables.readField.Gives FieldDeclaration.Loaded := by
  refine .after fun flags => Reader.gives_string.bind fun name short => ?_
  refine (Reader.gives_blob (SignatureReader.gives_fresh
    (SignatureReader.gives_field h.typeRefs))).bind fun type typed => ?_
  refine (gives_readAttributes h).bind fun attributes loaded => .pure ?_
  refine ⟨⟨typed.shallow, fun a ha => (loaded.2 a ha).admitted⟩,
    ⟨short, typed.shallow, loaded.imp fun _ _ a => a.writable⟩, ?_⟩
  exact List.forall_mem_append.2 ⟨typed.mentions, writable_of_countable loaded fun _ a => a.mentions⟩

/-- The parameters that are read have the types that are known, and names that are short enough. -/
lemma gives_readParams (types : List TypeSig) : (readParams types).Gives
    fun params => params.map (·.type) = types ∧ ∀ p ∈ params, Text.Short p.name := by
  induction types with
  | nil => exact .pure ⟨rfl, fun p hp => nomatch hp⟩
  | cons type types ih =>
    refine Reader.gives_string.bind fun name short => ih.bind fun params ⟨same, named⟩ => .pure ?_
    exact ⟨congrArg (type :: ·) same, List.forall_mem_cons.2 ⟨short, named⟩⟩

/-- A method is loaded if its parts are. -/
lemma loaded_of_parts {m : MethodDeclaration} (name : Text.Short m.name) (sig : m.sig.Loaded)
    (params : Countable (fun p => Text.Short p.name) m.params)
    (attributes : Countable Attribute.Loaded m.attributes) (body : ∀ b ∈ m.body, b.Loaded) :
    m.Loaded := by
  refine ⟨⟨fun p hp => ?_, sig.shallow.ret, fun a ha => (attributes.2 a ha).admitted,
    fun b hb => (body b hb).readable⟩, ⟨name, params, attributes.imp fun _ _ a => a.writable,
    fun b hb => (body b hb).writable⟩, ?_, fun b hb => (body b hb).numbered⟩
  · exact sig.shallow.params p.type (List.mem_map.2 ⟨p, hp, rfl⟩)
  · refine List.forall_mem_append.2 ⟨sig.mentions, List.forall_mem_append.2
      ⟨writable_of_countable attributes fun _ a => a.mentions, ?_⟩⟩
    exact List.forall_mem_flatMap.2 fun b hb => (body b (Option.mem_toList.1 hb)).mentions

lemma gives_readMethod (h : tables.Loaded) : tables.readMethod.Gives MethodDeclaration.Loaded := by
  refine .after fun flags => Reader.gives_string.bind fun name short => ?_
  refine (Reader.gives_blob (SignatureReader.gives_fresh
    (SignatureReader.gives_method h.typeRefs))).bind fun sig typed => Reader.gives_guard ?_
  refine .after fun count => Reader.gives_guard ?_
  refine (gives_readParams sig.params).bind fun params ⟨same, named⟩ => ?_
  refine (gives_readAttributes h).bind fun attributes loaded => ?_
  refine (gives_readBody? h name).bind fun body loaded' => .pure ?_
  refine loaded_of_parts short (typed.congr rfl same) ⟨?_, named⟩ loaded loaded'
  show params.length ≤ Encoding.maxCompressed
  rw [← List.length_map, same]
  exact typed.few

lemma gives_readType (h : tables.Loaded) : tables.readType.Gives TypeDeclaration.Loaded := by
  refine .after fun flags => Reader.gives_string.bind fun space short => ?_
  refine Reader.gives_string.bind fun name short' => ?_
  refine (Table.gives_readTypeRef? h.typeRefs).bind fun base based => ?_
  refine (Reader.gives_list (Table.gives_readTypeRef h.typeRefs)).bind fun interfaces named => ?_
  refine (gives_readAttributes h).bind fun attributes attributed => ?_
  refine (Reader.gives_list (gives_readField h)).bind fun fields fielded => ?_
  refine (Reader.gives_list (gives_readMethod h)).bind fun methods loaded => .pure ?_
  refine ⟨⟨fun a ha => (attributed.2 a ha).admitted, fun f hf => (fielded.2 f hf).admitted,
    fun m hm => (loaded.2 m hm).admitted⟩, ⟨short, short', named.1,
    attributed.imp fun _ _ a => a.writable, fielded.imp fun _ _ f => f.writable,
    loaded.imp fun _ _ m => m.writable⟩, ?_, fun m hm => (loaded.2 m hm).numbered⟩
  refine List.forall_mem_append.2 ⟨List.forall_mem_map.2 fun ref href => ?_, ?_⟩
  · exact based ref (Option.mem_toList.1 href)
  refine List.forall_mem_append.2 ⟨List.forall_mem_map.2 named.2, ?_⟩
  refine List.forall_mem_append.2 ⟨writable_of_countable attributed fun _ a => a.mentions, ?_⟩
  exact List.forall_mem_append.2 ⟨writable_of_countable fielded fun _ f => f.mentions,
    writable_of_countable loaded fun _ m => m.mentions⟩

end Tables

lemma gives_read : read.Gives Module.Loaded := by
  refine .after fun found => Reader.gives_guard ?_
  refine .after fun version => Reader.gives_guard ?_
  refine Reader.gives_string.bind fun name short => ?_
  refine Tables.gives_read.bind fun tables loaded => ?_
  refine (Reader.gives_list Reader.gives_string).bind fun references named => ?_
  refine (Reader.gives_list (Tables.gives_readType loaded)).bind fun types typed => ?_
  refine .after fun c => ?_
  have made : (Module.ofParts name references types).Loaded :=
    ⟨rfl, fun t ht => (typed.2 t ht).admitted, ⟨short, named, typed.imp fun _ _ t => t.writable⟩,
      writable_of_countable typed fun _ t => t.mentions, fun t ht => (typed.2 t ht).numbered⟩
  split
  · exact .after fun pos => (Reader.gives_malformed (P := fun _ => True) _).bind fun _ _ => .pure made
  · exact .pure made

end Image

/-- Whatever is read from an image can be written and read again. -/
lemma Module.loaded_of_ofBytes {bytes : Bytes} {m : Module} (h : ofBytes bytes = .ok m) :
    m.Loaded := by
  obtain ⟨file, _, h⟩ := bind_eq_ok.1 h
  unfold Reader.value at h
  split at h
  · next read =>
    cases h
    exact Image.gives_read _ _ _ read
  · cases h

end HookWeave

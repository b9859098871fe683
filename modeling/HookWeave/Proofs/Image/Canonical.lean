import HookWeave.Proofs.Image.Loaded

/-!
# Loaded modules written again

A module that was loaded is written so that it reads back as itself, identities included
(`Module.ofBytes_toBytes_of_loaded`): its branches have the forms that the layout gives them, and its
identities are the positions that a reader counts. So the image that is written for it is the only one
of its kind (`Module.toBytes_ofBytes`), whatever image it was loaded from. There may be none: rows are given
anew, and a signature may take more bytes with its new rows (`Example.openHouse_outgrows`).
-/

namespace HookWeave

/-! ## Equal by position -/

/-- Clauses whose boundaries are equal are equal. -/
lemma ExceptionClause.SameBy.eq {r : InstrId → InstrId → Prop} {c d : ExceptionClause}
    (h : c.SameBy r d) (same : ∀ a b, r a b → a = b) : d = c := by
  obtain ⟨flags, tryStart, tryEnd, handlerStart, handlerEnd, catchType⟩ := c
  obtain ⟨flags', tryStart', tryEnd', handlerStart', handlerEnd', catchType'⟩ := d
  have stops : ∀ a b : Option InstrId, Option.Rel r a b → a = b := by
    intro a b related
    cases related with
    | none => rfl
    | some related => exact congrArg some (same _ _ related)
  cases h.flags
  cases h.catchType
  cases same _ _ h.tryStart
  cases same _ _ h.handlerStart
  cases stops _ _ h.tryEnd
  cases stops _ _ h.handlerEnd
  rfl

/-- Operands whose targets are equal are equal. -/
lemma Operand.SameBy.eq {r : InstrId → InstrId → Prop} {v w : Operand} (h : v.SameBy r w)
    (same : ∀ a b, r a b → a = b) : v = w := by
  have h : v.SameBy Eq w := h.imp same
  cases v with
  | target a =>
    cases w with
    | target b => exact congrArg target h
    | _ => cases h
  | switch as =>
    cases w with
    | switch bs => exact congrArg switch (List.forall₂_eq_eq_eq ▸ h)
    | _ => cases h
  | _ => cases w <;> exact h

namespace InstructionList

variable {l m : InstructionList} {ps : List Placed} {code code' : List (OpCode × Operand)}

/-- In numbered code an identity is the position at which it is listed. -/
lemma eq_of_position?_ofCode {id : InstrId} {k : Nat} (h : (ofCode code).position? id = some k) :
    id = ⟨k⟩ := by
  obtain ⟨i, listed, rfl⟩ := position?_eq_some.1 h
  have listed : (number 0 code)[k]? = some i := listed
  rw [getElem?_number, Nat.zero_add, Option.map_eq_some_iff] at listed
  obtain ⟨_, _, rfl⟩ := listed
  rfl

/-- Identities of numbered code at one position are equal. -/
lemma eq_of_samePosition {a b : InstrId} (h : (ofCode code).SamePosition (ofCode code') a b) :
    a = b := by
  obtain ⟨k, first, second⟩ := h
  rw [eq_of_position?_ofCode first, eq_of_position?_ofCode second]

/-- Settled code with the identities 0, 1, 2 and so on is read back as it is. -/
lemma Settled.eq_of_laidAs (settled : (ofCode code).Settled ps)
    (same : (ofCode code).SameCode m) (laid : (ofCode code).LaidAs m) : m = ofCode code := by
  obtain ⟨layout, code', laidOut, rfl, ops⟩ := laid
  cases settled.reaching.layout.symm.trans laidOut
  -- The layout holds the very instructions of the list, so that no opcode was widened.
  have opcodes : code'.map Prod.fst = code.map Prod.fst := by
    have placed := congrArg (List.map (·.op)) settled.placed
    rw [List.map_map] at placed
    refine ops.trans (placed.trans ?_)
    rw [← List.forall₂_eq_eq_eq, List.forall₂_map_left_iff, List.forall₂_map_right_iff]
    exact (forall₂_number code).flip.imp fun _ _ same => same.1
  have operands : code'.map Prod.snd = code.map Prod.snd := by
    rw [← List.forall₂_eq_eq_eq, List.forall₂_map_left_iff, List.forall₂_map_right_iff]
    have first : List.Forall₂ (fun c j => j.operand = c.2) code (number 0 code') :=
      forall₂_comp (forall₂_number code) same fun c i j held related =>
        (related.operand.eq fun _ _ => eq_of_samePosition).symm.trans held.2
    have second : List.Forall₂ (fun c c' => c'.2 = c.2) code code' :=
      forall₂_comp first (forall₂_number code').flip fun c j c' held held' =>
        held'.2.symm.trans held
    exact second.flip
  rw [List.zip_of_prod opcodes operands, ← List.zip_of_prod rfl rfl]

end InstructionList

/-- A body that can be written, with the identities 0, 1, 2 and so on, is read back as it is. -/
lemma MethodBody.ReadBack.eq {b c : MethodBody} (h : b.ReadBack c) (writable : b.Writable)
    (numbered : b.Numbered) : c = b := by
  obtain ⟨maxStack, initLocals, locals, instructions, clauses⟩ := b
  obtain ⟨maxStack', initLocals', locals', instructions', clauses'⟩ := c
  obtain ⟨same, laid⟩ := h
  obtain ⟨code, rfl⟩ := numbered
  obtain ⟨ps, settled⟩ := writable.code
  cases same.maxStack
  cases same.initLocals
  cases same.locals
  cases settled.eq_of_laidAs same.code laid
  have regions : List.Forall₂ Eq clauses clauses' :=
    same.clauses.imp fun _ _ related =>
      (related.eq fun _ _ => InstructionList.eq_of_samePosition).symm
  cases List.forall₂_eq_eq_eq ▸ regions
  rfl

lemma MethodDeclaration.ReadBack.eq {m n : MethodDeclaration} (h : m.ReadBack n)
    (writable : m.Writable) (numbered : ∀ b ∈ m.body, b.Numbered) : n = m := by
  obtain ⟨body, same, rfl⟩ := h
  have unchanged : body = m.body := by
    have writable := writable.body
    generalize m.body = old at same writable numbered
    cases same with
    | none => rfl
    | some same => exact congrArg some (same.eq (writable _ rfl) (numbered _ rfl))
  rw [unchanged]

lemma TypeDeclaration.ReadBack.eq {s t : TypeDeclaration} (h : s.ReadBack t)
    (writable : s.Writable) (numbered : ∀ m ∈ s.methods, ∀ b ∈ m.body, b.Numbered) : t = s := by
  obtain ⟨methods, same, rfl⟩ := h
  rw [eq_of_forall₂ same fun m hm _ related => related.eq (writable.methods.2 m hm) (numbered m hm)]

/-! ## Images -/

/-- A module that was loaded is read back from its image as it is. -/
lemma Module.ofBytes_toBytes_of_loaded {m : Module} {bytes : Bytes} (loaded : m.Loaded)
    (h : m.toBytes = .ok bytes) : Module.ofBytes bytes = .ok m := by
  obtain ⟨types, same, read⟩ := Module.reads_of_toBytes h fun t ht _ _ _ written =>
    Image.Building.yields_writeType_readBack written (loaded.admitted t ht)
  rw [eq_of_forall₂ same fun t ht _ related => related.eq (loaded.writable.types.2 t ht) (loaded.numbered t ht),
    ← loaded.parts] at read
  exact read

/-- A module that was loaded is written if it has fewer than 2^24 distinct mentions for each table and its
method signatures fit in a table of its type references, and the image that is written is read as that very
module and written again as it is. Types by name may have other rows in the new tables than in those that
were read, and a row takes up to four bytes: that is why signatures may no longer fit. -/
theorem Module.toBytes_ofBytes {x : Bytes} {m : Module} (h : Module.ofBytes x = .ok m)
    (few : ∀ table, (m.distinct table).length < 2 ^ 24)
    (fits : ∀ s, .signature s ∈ m.mentions → s.Fits (m.distinct .typeRefs).length) :
    ∃ y, m.toBytes = .ok y ∧ Module.ofBytes y = .ok m
      ∧ (Module.ofBytes y >>= Module.toBytes) = .ok y := by
  have loaded := Module.loaded_of_ofBytes h
  have budget : Image.Budget m.mentions :=
    ⟨loaded.mentions, fun table => Nat.le_of_lt_succ (few table)⟩
  obtain ⟨y, written⟩ | ⟨_, s, _, listed, _, unfit⟩ :=
    Module.toBytes_of_writable budget loaded.writable
  · have read := Module.ofBytes_toBytes_of_loaded loaded written
    exact ⟨y, written, read, bind_eq_ok.2 ⟨m, read, written⟩⟩
  · exact absurd (fits s listed) unfit

namespace Example

/-- An image whose table of strings holds one text twice; its code names the second row. -/
def doubled : Bytes :=
  Image.magic ++ [1, 0, 1, 0x6D, 2, 1, 0x61, 1, 0x61, 0, 0, 0, 0, 1, 1, 0, 0, 0, 0, 1, 0x54, 0, 0, 0, 0,
    1, 0x16, 0, 1, 0x66, 3, 0, 0, 1, 0, 0, 1, 1, 0, 0, 0, 7, 0x72, 2, 0, 0, 0x70, 0x26, 0x2A, 0]

/-- The module in that image. -/
def doubledModule : Module :=
  .ofParts "m" [] [⟨"", "T", 1, none, [], [], [], [⟨"f", 0x16, [], .prim .void, [], some ⟨1, false, [],
    .ofCode [(.ldstr, .string "a"), (.pop, .none), (.ret, .none)], []⟩⟩]⟩]

set_option maxRecDepth 100000 in
lemma ofBytes_doubled : Module.ofBytes doubled = .ok doubledModule :=
  rfl

/-- The module is written, and what is written reads back as it. -/
theorem doubled_rewritten :
    Module.ofBytes doubled = .ok doubledModule
      ∧ (∀ table, (doubledModule.distinct table).length < 2 ^ 24)
      ∧ (∀ s, .signature s ∈ doubledModule.mentions → s.Fits (doubledModule.distinct .typeRefs).length)
      ∧ ∃ y, doubledModule.toBytes = .ok y ∧ Module.ofBytes y = .ok doubledModule
        ∧ (Module.ofBytes y >>= Module.toBytes) = .ok y := by
  have few : ∀ table, (doubledModule.distinct table).length < 2 ^ 24 := by
    intro table
    cases table
    all_goals decide
  have fits : ∀ s, .signature s ∈ doubledModule.mentions →
      s.Fits (doubledModule.distinct .typeRefs).length := by
    intro s listed
    have mentions : doubledModule.mentions
        = [.signature ⟨false, .prim .void, []⟩, .reference (.string "a")] := rfl
    rw [mentions] at listed
    -- The only signature that is mentioned has no parameters.
    cases listed with
    | head =>
      exact MethodSig.fits_of_params ⟨Nat.zero_lt_succ _, List.forall_mem_nil _⟩ (Nat.zero_le _)
    | tail _ listed => cases List.mem_singleton.1 listed
  exact ⟨ofBytes_doubled, few, fits, Module.toBytes_ofBytes ofBytes_doubled few fits⟩

/-! ### A module that outgrows its image

A type by name that comes often may be in the first row of the tables of an image, where a row takes one
byte, and behind all others in the tables that are written of the module, where it takes four.
-/

/-- The type that comes often. -/
def regular : TypeRef := ⟨"hall", "", "Regular"⟩

/-- The types of all who come: of others once, and of one `n` times. -/
def guests (others : List TypeRef) (n : Nat) : List TypeSig :=
  others.map .refType ++ List.replicate n (.refType regular)

/-- A method that takes them. -/
def welcome (others : List TypeRef) (n : Nat) : MethodDeclaration :=
  ⟨"welcome", MethodDeclaration.staticFlag, (guests others n).map (⟨"", ·⟩), .void, [], none⟩

/-- A type with this method. -/
def hall (others : List TypeRef) (n : Nat) : TypeDeclaration :=
  ⟨"", "Hall", 1, none, [], [], [], [welcome others n]⟩

/-- A module with this type. -/
def openHouse (others : List TypeRef) (n : Nat) : Module :=
  .ofParts "hall" [] [hall others n]

/-- Tables in which the type that comes often has the first row. -/
def regularFirst (others : List TypeRef) : Image.Builder :=
  { Image.Builder.empty with typeRefs := ⟨regular :: others⟩ }

section

open Image Building

variable {others : List TypeRef} {n : Nat} {bytes : Bytes}

lemma length_guests : (guests others n).length = others.length + n := by
  rw [guests, List.length_append, List.length_map, List.length_replicate]

lemma mem_guests {type : TypeSig} (h : type ∈ guests others n) :
    ∃ t ∈ regular :: others, type = .refType t := by
  obtain once | often := List.mem_append.1 h
  · obtain ⟨t, listed, rfl⟩ := List.mem_map.1 once
    exact ⟨t, List.mem_cons_of_mem _ listed, rfl⟩
  · exact ⟨regular, List.mem_cons_self, (List.mem_replicate.1 often).2⟩

lemma welcome_sig : (welcome others n).sig = ⟨false, .void, guests others n⟩ := by
  have types : (welcome others n).params.map (·.type) = guests others n := by
    show ((guests others n).map (⟨"", ·⟩)).map Parameter.type = guests others n
    rw [List.map_map]
    exact List.map_id _
  have static : (welcome others n).isStatic = true :=
    decide_eq_true (UInt16.and_self : MethodDeclaration.staticFlag &&& _ = _)
  rw [MethodDeclaration.sig, types, static]
  rfl

/-- No table takes more rows than there are types by name. -/
lemma length_distinct_openHouse (table : TableKind) :
    ((openHouse others n).distinct table).length ≤ others.length + 1 := by
  have mentions : (openHouse others n).mentions = (welcome others n).sig.mentions := by
    show ((welcome others n).sig.mentions ++ []) ++ [] ++ [] = _
    rw [List.append_nil, List.append_nil, List.append_nil]
  have subset : (openHouse others n).distinct table ⊆ (regular :: others).map .typeRef := by
    intro e he
    obtain ⟨listed, kind⟩ := List.mem_filter.1 (List.mem_dedup.1 he)
    rw [mentions, welcome_sig] at listed
    cases listed with
    | head => cases of_decide_eq_true kind
    | tail _ listed =>
      obtain ⟨type, came, listed⟩ := List.mem_flatMap.1 listed
      obtain ⟨t, known, rfl⟩ := mem_guests came
      cases List.mem_singleton.1 listed
      exact List.mem_map.2 ⟨t, known, rfl⟩
  have le := ((List.nodup_dedup _).subperm subset).length_le
  rwa [List.length_map, List.length_cons] at le

/-- From the first row on, the signature takes two bytes whenever the type comes. -/
lemma encode_welcome_early (distinct : (regular :: others).Nodup)
    (short : 53 * others.length + 2 * n + 6 ≤ Encoding.maxCompressed) :
    ∃ bytes, (welcome others n).sig.encode ⟨[regular]⟩ = .ok (bytes, ⟨regular :: others⟩)
      ∧ bytes.length ≤ Encoding.maxCompressed := by
  have rows : (regular :: others).length ≤ Encoding.maxCompressed := by
    rw [List.length_cons]
    omega
  obtain ⟨once, first⟩ := TypeSig.encodeList_new (t := ⟨[regular]⟩) distinct rows
  have found : Table.intern ⟨regular :: others⟩ regular = (1, ⟨regular :: others⟩) :=
    Table.intern_of_prefix (t := .empty) (List.prefix_append [regular] _)
  have coded : Encoding.compressed 1 = .ok [1] := rfl
  have often := TypeSig.encodeList_replicate found coded n
  have many : (guests others n).length ≤ Encoding.maxCompressed := by
    rw [length_guests]
    omega
  obtain ⟨count, counted⟩ := Encoding.count_eq_ok many
  rw [welcome_sig]
  refine ⟨_, run_lift_bind_eq_ok.2 ⟨count, counted, run_bind_eq_ok.2 ⟨[Primitive.void.code], _, rfl,
    run_bind_eq_ok.2 ⟨_, _, TypeSig.encodeList_append first often, rfl⟩⟩⟩, ?_⟩
  have countLe := Encoding.length_compressed_le (Reader.compressed_of_count counted)
  have onceLe := TypeSig.length_encodeList first fun type listed => by
    obtain ⟨_, _, rfl⟩ := List.mem_map.1 listed
    exact Nat.zero_lt_succ _
  rw [List.length_map] at onceLe
  simp only [List.length_cons, List.length_append, List.length_flatten, List.map_replicate,
    List.sum_replicate_nat, List.length_nil]
  omega

/-- Behind very many others, the signature takes five bytes whenever the type comes. -/
lemma encode_welcome_late {t : Table TypeRef} (distinct : (regular :: others).Nodup)
    (late : 0x3FFF ≤ others.length) (few : others.length < Encoding.maxCompressed)
    (h : (welcome others n).sig.encode .empty = .ok (bytes, t)) : 5 * n ≤ bytes.length := by
  cases n with
  | zero => exact Nat.zero_le _
  | succ n =>
    obtain ⟨new, distinct⟩ := List.nodup_cons.1 distinct
    obtain ⟨once, first⟩ := TypeSig.encodeList_new (t := .empty) distinct (Nat.le_of_lt few)
    obtain ⟨code, coded⟩ := Encoding.compressed_eq_ok few
    have often := TypeSig.encodeList_replicate_new (t := ⟨others⟩) new coded n
    have all := TypeSig.encodeList_append first often
    have four : code.length = 4 := by
      rw [Encoding.length_compressed coded, if_neg (by omega), if_neg (by omega)]
    rw [welcome_sig] at h
    obtain ⟨count, counted, h⟩ := run_lift_bind_eq_ok.1 h
    obtain ⟨ret, t₁, returned, h⟩ := run_bind_eq_ok.1 h
    obtain ⟨rfl, rfl⟩ := run_pure_eq_ok.1 returned
    obtain ⟨params, t₂, taken, h⟩ := run_bind_eq_ok.1 h
    obtain ⟨rfl, rfl⟩ := run_pure_eq_ok.1 h
    cases all.symm.trans taken
    simp only [List.length_cons, List.length_append, List.length_flatten, List.map_replicate,
      List.sum_replicate_nat, four]
    omega

lemma writeMethod_welcome (distinct : (regular :: others).Nodup)
    (short : 53 * others.length + 2 * n + 6 ≤ Encoding.maxCompressed) :
    ∃ out, writeMethod (welcome others n) (regularFirst []) = .ok (out, regularFirst others) := by
  obtain ⟨sig, encoded, small⟩ := encode_welcome_early distinct short
  obtain ⟨boxed, box⟩ := Encoding.blob_eq_ok small
  obtain ⟨name, named⟩ := Encoding.string_eq_ok (s := "welcome") (by decide)
  have names : Countable (fun p => ∃ out, Encoding.string (Parameter.name p) = .ok out)
      (welcome others n).params := by
    refine ⟨?_, fun p listed => ?_⟩
    · rw [welcome, List.length_map, length_guests]
      omega
    · obtain ⟨_, _, rfl⟩ := List.mem_map.1 listed
      exact Encoding.string_eq_ok (s := "") (by decide)
  obtain ⟨params, listed⟩ := Image.writeList_isOk names
  exact ⟨_, run_lift_bind_eq_ok.2 ⟨name, named, run_bind_eq_ok.2 ⟨sig, regularFirst others,
    bind_eq_ok.2 ⟨_, encoded, rfl⟩, run_lift_bind_eq_ok.2 ⟨boxed, box,
    run_bind_eq_ok.2 ⟨params, _, writeList_lift listed _,
    run_bind_eq_ok.2 ⟨[0], _, rfl, run_bind_eq_ok.2 ⟨[0], _, rfl, rfl⟩⟩⟩⟩⟩⟩⟩

lemma writeType_hall (distinct : (regular :: others).Nodup)
    (short : 53 * others.length + 2 * n + 6 ≤ Encoding.maxCompressed) :
    ∃ out, writeType (hall others n) (regularFirst []) = .ok (out, regularFirst others) := by
  obtain ⟨out, method⟩ := writeMethod_welcome distinct short
  have methods := writeList_singleton_eq_ok.2 ⟨out, method, rfl⟩
  obtain ⟨space, spaced⟩ := Encoding.string_eq_ok (s := "") (by decide)
  obtain ⟨name, named⟩ := Encoding.string_eq_ok (s := "Hall") (by decide)
  exact ⟨_, run_lift_bind_eq_ok.2 ⟨space, spaced, run_lift_bind_eq_ok.2 ⟨name, named,
    run_bind_eq_ok.2 ⟨[0], _, rfl, run_bind_eq_ok.2 ⟨[0], _, rfl, run_bind_eq_ok.2 ⟨[0], _, rfl,
    run_bind_eq_ok.2 ⟨[0], _, rfl, run_bind_eq_ok.2 ⟨_, _, methods, rfl⟩⟩⟩⟩⟩⟩⟩⟩

/-- There is an image of the module in which the type that comes often has the first row. -/
lemma toBytesOn_openHouse (distinct : (regular :: others).Nodup)
    (writable : ∀ t ∈ regular :: others, (Mention.typeRef t).Writable)
    (short : 53 * others.length + 2 * n + 6 ≤ Encoding.maxCompressed) :
    ∃ x, (openHouse others n).toBytesOn (regularFirst []) = .ok x := by
  obtain ⟨out, type⟩ := writeType_hall distinct short
  have types := writeList_singleton_eq_ok.2 ⟨out, type, rfl⟩
  obtain ⟨name, named⟩ := Encoding.string_eq_ok (s := "hall") (by decide)
  have rows : Countable (fun t => ∃ out, writeTypeRef t = .ok out) (regular :: others) := by
    refine ⟨?_, fun t listed => writeTypeRef_isOk (writable t listed)⟩
    rw [List.length_cons]
    omega
  obtain ⟨typeRefs, referred⟩ := Image.writeList_isOk rows
  have tables : ∃ out, (regularFirst others).encode = .ok out :=
    ⟨_, bind_eq_ok.2 ⟨[0], rfl, bind_eq_ok.2 ⟨typeRefs, referred, bind_eq_ok.2 ⟨[0], rfl,
      bind_eq_ok.2 ⟨[0], rfl, rfl⟩⟩⟩⟩⟩
  obtain ⟨tables, tabled⟩ := tables
  exact ⟨_, bind_eq_ok.2 ⟨_, types, bind_eq_ok.2 ⟨name, named, bind_eq_ok.2 ⟨tables, tabled,
    bind_eq_ok.2 ⟨[0], rfl, rfl⟩⟩⟩⟩⟩

/-- From that image the module is read. -/
lemma ofBytes_openHouse {x : Bytes}
    (h : (openHouse others n).toBytesOn (regularFirst []) = .ok x) :
    Module.ofBytes x = .ok (openHouse others n) := by
  have method : (welcome others n).Admitted := by
    refine ⟨fun p listed => ?_, Nat.zero_lt_succ _, List.forall_mem_nil _, fun _ none => nomatch none⟩
    obtain ⟨_, came, rfl⟩ := List.mem_map.1 listed
    obtain ⟨_, _, rfl⟩ := mem_guests came
    exact Nat.zero_lt_succ _
  have type : (hall others n).Admitted :=
    ⟨List.forall_mem_nil _, List.forall_mem_nil _, List.forall_mem_singleton.2 method⟩
  obtain ⟨types, same, read⟩ := Module.reads_of_toBytesOn (Builder.sound_of_empty rfl rfl) h
    fun t ht _ _ _ written => by
      cases List.mem_singleton.1 ht
      exact yields_writeType_readBack written type
  have same : List.Forall₂ TypeDeclaration.ReadBack [hall others n] types := same
  cases same with
  | cons first rest =>
    cases rest
    obtain ⟨methods, each, rfl⟩ := first
    have each : List.Forall₂ MethodDeclaration.ReadBack [welcome others n] methods := each
    cases each with
    | cons first rest =>
      cases rest
      obtain ⟨body, bodies, rfl⟩ := first
      have bodies : Option.Rel MethodBody.ReadBack none body := bodies
      cases bodies
      exact read

/-- The image of the module itself would have the type in a row behind all others. -/
lemma toBytes_openHouse (distinct : (regular :: others).Nodup)
    (late : 0x3FFF ≤ others.length) (few : others.length < Encoding.maxCompressed)
    (long : Encoding.maxCompressed < 5 * n) : ∃ e, (openHouse others n).toBytes = .error e := by
  cases h : (openHouse others n).toBytes with
  | error e => exact ⟨e, rfl⟩
  | ok y =>
    obtain ⟨⟨definitions, b⟩, defined, _⟩ := bind_eq_ok.1 h
    obtain ⟨_, type, _⟩ := writeList_singleton_eq_ok.1 defined
    obtain ⟨_, _, _, _, _, _, _, _, _, _, _, _, _, based, implemented, attributed, fielded, written, _⟩ :=
      of_writeType_eq_ok type
    cases based
    cases implemented
    cases attributed
    cases fielded
    obtain ⟨_, method, _⟩ := writeList_singleton_eq_ok.1 written
    obtain ⟨_, sig, _, _, _, _, _, _, _, _, interned, box, _⟩ := of_writeMethod_eq_ok method
    obtain ⟨⟨_, t⟩, encoded, same⟩ := bind_eq_ok.1 interned
    cases same
    have le := encode_welcome_late distinct late few encoded
    exact absurd (Encoding.le_of_blob box) (Nat.not_le_of_lt (Nat.lt_of_lt_of_le long le))

end

/-- A type whose name has so many letters. -/
def passerby (letters : Nat) : TypeRef := ⟨"", "", .ofList (.replicate letters 'a')⟩

/-- The first `k` of these types. -/
def passersby (k : Nat) : List TypeRef :=
  (List.range k).map passerby

lemma length_passersby (k : Nat) : (passersby k).length = k := by
  rw [passersby, List.length_map, List.length_range]

lemma nodup_passersby (k : Nat) : (regular :: passersby k).Nodup := by
  refine List.nodup_cons.2 ⟨fun listed => ?_, List.nodup_range.map fun j l same => ?_⟩
  · obtain ⟨_, _, same⟩ := List.mem_map.1 listed
    have scopes : "" = "hall" := congrArg TypeRef.scope same
    exact absurd scopes (by decide)
  · have names := congrArg (fun t => t.name.toList.length) same
    simpa [passerby] using names

lemma writable_passersby {k : Nat} (few : k ≤ UInt32.size) :
    ∀ t ∈ regular :: passersby k, (Mention.typeRef t).Writable := by
  have nameless : Text.Short "" := by decide
  refine List.forall_mem_cons.2 ⟨⟨?hall, nameless, ?regular⟩, fun t listed => ?passerby⟩
  case hall =>
    show Text.Short "hall"
    decide
  case regular =>
    show Text.Short "Regular"
    decide
  case passerby =>
    obtain ⟨j, below, rfl⟩ := List.mem_map.1 listed
    have letters : (Text.utf8 (passerby j).name).length = j := by
      show (Text.utf8 (.ofList (.replicate j 'a'))).length = j
      rw [Text.utf8, String.toList_ofList, List.length_flatMap, List.map_replicate, List.sum_replicate]
      exact Nat.mul_one j
    refine ⟨nameless, nameless, ?_⟩
    rw [Text.Short, letters]
    exact Nat.lt_of_lt_of_le (List.mem_range.1 below) few

/-- There is an image of a module with few types by name that cannot be written again: the row of one type
is the first in the image, but takes four bytes behind 16383 others, and its signature has that type 110
million times. -/
theorem openHouse_outgrows :
    ∃ x, (openHouse (passersby 0x3FFF) 110000000).toBytesOn (regularFirst []) = .ok x
      ∧ Module.ofBytes x = .ok (openHouse (passersby 0x3FFF) 110000000)
      ∧ (∀ table, ((openHouse (passersby 0x3FFF) 110000000).distinct table).length < 2 ^ 24)
      ∧ ∃ e, (openHouse (passersby 0x3FFF) 110000000).toBytes = .error e := by
  have distinct := nodup_passersby 0x3FFF
  have length := length_passersby 0x3FFF
  obtain ⟨x, written⟩ := toBytesOn_openHouse (n := 110000000) distinct
    (writable_passersby (by decide)) (by rw [length]; decide)
  refine ⟨x, written, ofBytes_openHouse written, fun table => ?_, ?_⟩
  · refine Nat.lt_of_le_of_lt (length_distinct_openHouse table) ?_
    rw [length]
    decide
  · exact toBytes_openHouse distinct (by rw [length]) (by rw [length]; decide) (by decide)

end Example

end HookWeave

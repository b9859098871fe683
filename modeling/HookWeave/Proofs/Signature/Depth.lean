import HookWeave.Proofs.Signature.Codec

/-!
# The depth at which signatures are read

A reader of signatures counts how deep the type that it reads nests, and a type that is refused leaves its
levels counted. How deep a type nests can be told ahead, from the codes of addresses and arrays that it
starts with (`Cursor.levelsAhead`). A type is refused for its nesting just where these levels and those that
were left make up the limit, and else fares as at depth 0 (`SignatureReader.nests_type`), so whole signatures
do (`SignatureReader.read_fares`). One call after another is made on a reader (`SignatureReader.Reached`): as
long as no call failed within a type, each fares as on a new reader (`SignatureReader.Reached.reads_as_new`).
-/

namespace HookWeave

/-- How many levels the type at the front of some bytes has above its innermost one. -/
def Bytes.levels : Bytes → Nat
  | [] => 0
  | b :: bytes => if b = ElementCode.byRef ∨ b = ElementCode.array then levels bytes + 1 else 0

/-- How many levels the type at the cursor has above its innermost one. -/
def Cursor.levelsAhead (c : Cursor) : Nat :=
  Bytes.levels c.rest

/-! ## Reads that know no limit -/

/-- The read is never refused for its nesting. -/
def Reader.Unlimited {α : Type} (r : Reader α) : Prop :=
  ∀ c e c', r c = .error e c' → ∀ n, e ≠ .recursionLimit n

namespace Reader

variable {α β : Type} {r : Reader α} {f : α → Reader β}

lemma Unlimited.pure (a : α) : (Pure.pure a : Reader α).Unlimited := by
  intro c e c' h
  cases h

lemma Unlimited.bind (hr : r.Unlimited) (hf : ∀ a, (f a).Unlimited) : (r >>= f).Unlimited := by
  intro c e c' h
  obtain first | ⟨a, c₁, _, second⟩ := edit_bind_eq_error.1 h
  · exact hr c e c' first
  · exact hf a c₁ e c' second

lemma Unlimited.ite {p : Prop} [Decidable p] {r' : Reader α} (h : r.Unlimited) (h' : r'.Unlimited) :
    (if p then r else r').Unlimited := by
  split
  · exact h
  · exact h'

lemma unlimited_malformed (cause : Malformation) : (malformed cause : Reader α).Unlimited := by
  intro c e c' h n
  cases h
  nofun

lemma unlimited_uint8 : uint8.Unlimited := by
  rintro ⟨pos, rest⟩ e c' h n
  cases rest with
  | nil =>
    cases h
    nofun
  | cons b rest => cases h

lemma unlimited_compressed : compressed.Unlimited := by
  refine unlimited_uint8.bind fun lead => .ite (.pure _) (.ite ?_ (.ite ?_ (unlimited_malformed _)))
  · exact unlimited_uint8.bind fun low => .pure _
  · refine unlimited_uint8.bind fun high => unlimited_uint8.bind fun middle => ?_
    exact unlimited_uint8.bind fun low => .pure _

lemma unlimited_count : count.Unlimited := by
  refine unlimited_compressed.bind fun n => ?_
  intro c e c' h
  exact (Unlimited.ite (p := c.remaining < n) (unlimited_malformed _) (.pure n)) c e c' h

end Reader

lemma Table.unlimited_readTypeRef (table : Table TypeRef) : table.readTypeRef.Unlimited := by
  have optional : table.readTypeRef?.Unlimited := by
    refine (Reader.unlimited_compressed.bind fun n => ?_).bind fun row => ?_
    · cases n with
      | zero => exact .pure _
      | succ n => exact .pure _
    · cases row with
      | none => exact .pure _
      | some index =>
        dsimp only
        unfold typeRef
        cases table.get? index with
        | some t => exact .pure _
        | none => exact Reader.unlimited_malformed _
  refine optional.bind fun found => ?_
  cases found with
  | some t => exact .pure t
  | none =>
    intro c e c' h n
    cases h
    nofun

namespace SignatureReader

variable {α β : Type} {table : Table TypeRef} {c c' : Cursor} {t : TypeSig} {e : Fault} {b : UInt8}
  {rest : Bytes} {pos d d' levels n : Nat}

lemma lift_of_ok {r : Reader α} {a : α} (h : r c = .ok a c') : lift r ⟨c, d⟩ = .ok a ⟨c', d⟩ := by
  rw [lift, h]

lemma lift_of_error {r : Reader α} (h : r c = .error e c') : lift r ⟨c, d⟩ = .error e ⟨c', d⟩ := by
  rw [lift, h]

/-! ## Types -/

/-- What follows the code of a type: nothing, a row, a type one level down, or what is refused. -/
lemma typeAfter_cases (table : Table TypeRef) (b : UInt8) :
    ((b = ElementCode.byRef ∨ b = ElementCode.array)
        ∧ ∃ g : TypeSig → TypeSig, ∀ levels, typeAfter table levels b = g <$> typeWithin table levels)
      ∨ ¬ (b = ElementCode.byRef ∨ b = ElementCode.array)
        ∧ ((∃ t, ∀ levels, typeAfter table levels b = pure t)
          ∨ (∃ g : TypeRef → TypeSig, ∀ levels, typeAfter table levels b = g <$> lift table.readTypeRef)
          ∨ ∀ levels, typeAfter table levels b
            = do throw (.malformed (.elementType b ((← get).cursor.pos - 1)))) := by
  unfold typeAfter
  cases known : Primitive.ofCode? b with
  | some p =>
    refine .inr ⟨?_, .inl ⟨.prim p, fun _ => rfl⟩⟩
    rintro (rfl | rfl)
    · cases known
    · cases known
  | none =>
    by_cases ref : b = ElementCode.refType
    · subst ref
      exact .inr ⟨by decide, .inr (.inl ⟨.refType, fun _ => rfl⟩)⟩
    by_cases value : b = ElementCode.valueType
    · subst value
      exact .inr ⟨by decide, .inr (.inl ⟨.valueType, fun _ => rfl⟩)⟩
    by_cases byRef : b = ElementCode.byRef
    · subst byRef
      exact .inl ⟨.inl rfl, .byRef, fun _ => rfl⟩
    by_cases array : b = ElementCode.array
    · subst array
      exact .inl ⟨.inr rfl, .array, fun _ => rfl⟩
    refine .inr ⟨not_or.2 ⟨byRef, array⟩, .inr (.inr fun levels => ?_)⟩
    simp only [if_neg ref, if_neg value, if_neg byRef, if_neg array]

/-- A type is read one level down, from its code on. -/
lemma typeWithin_cons (table : Table TypeRef) (levels pos d : Nat) (b : UInt8) (rest : Bytes) :
    typeWithin table (levels + 1) ⟨⟨pos, b :: rest⟩, d⟩
      = (typeAfter table levels b >>= fun t => leave >>= fun _ => pure t) ⟨⟨pos + 1, rest⟩, d + 1⟩ := by
  rw [typeWithin_succ]
  rfl

/-- A type that may not nest as deep as it does is refused for it. -/
lemma typeWithin_limited (table : Table TypeRef) (deep : levels ≤ c.levelsAhead) (d : Nat) :
    ∃ c' d', d < d' ∧ typeWithin table levels ⟨c, d⟩ = .error (.recursionLimit maxDepth) ⟨c', d'⟩ := by
  induction levels generalizing c d with
  | zero => exact ⟨c, d + 1, Nat.lt_succ_self d, rfl⟩
  | succ levels ih =>
    obtain ⟨pos, _ | ⟨b, rest⟩⟩ := c
    · cases deep
    have deep : levels + 1 ≤ Bytes.levels (b :: rest) := deep
    obtain ⟨wraps, g, after⟩ | ⟨inner, _⟩ := typeAfter_cases table b
    · rw [Bytes.levels, if_pos wraps] at deep
      have deep : levels ≤ Cursor.levelsAhead ⟨pos + 1, rest⟩ := Nat.le_of_succ_le_succ deep
      obtain ⟨c', d', deeper, refused⟩ := ih deep (d + 1)
      refine ⟨c', d', Nat.lt_of_succ_lt deeper, ?_⟩
      rw [typeWithin_cons, after levels, map_eq_pure_bind, bind_of_error (bind_of_error refused)]
    · rw [Bytes.levels, if_neg inner] at deep
      cases deep

/-- What a read does that may go on for enough levels: what it gives or is refused for does not depend on
how many they are, nor on the depth; it ends at the depth that it started from, or is refused `gap` levels
down at least, and not for its nesting. -/
def Settled (r : Nat → SignatureReader α) (least gap : Nat) (c : Cursor) : Prop :=
  (∃ a c', ∀ levels d, least ≤ levels → r levels ⟨c, d⟩ = .ok a ⟨c', d⟩)
    ∨ ∃ e c', (∀ n, e ≠ .recursionLimit n)
      ∧ ∀ levels d, least ≤ levels → ∃ d', d + gap ≤ d' ∧ r levels ⟨c, d⟩ = .error e ⟨c', d'⟩

section

variable {r : Nat → SignatureReader α} {least gap : Nat}

lemma Settled.map (h : Settled r least gap c) (g : α → β) (gap' : Nat) (less : gap' ≤ gap) :
    Settled (fun levels => g <$> r levels) least gap' c := by
  obtain ⟨a, c', goes⟩ | ⟨e, c', other, refused⟩ := h
  · refine .inl ⟨g a, c', fun levels d enough => ?_⟩
    show (g <$> r levels) ⟨c, d⟩ = _
    rw [map_eq_pure_bind, bind_of_ok (goes levels d enough)]
    rfl
  · refine .inr ⟨e, c', other, fun levels d enough => ?_⟩
    obtain ⟨d', down, refused⟩ := refused levels d enough
    refine ⟨d', Nat.le_trans (Nat.add_le_add_left less d) down, ?_⟩
    show (g <$> r levels) ⟨c, d⟩ = _
    rw [map_eq_pure_bind, bind_of_error refused]

lemma settled_lift {r : Reader α} (unlimited : r.Unlimited) : Settled (fun _ => lift r) least 0 c := by
  cases goes : r c with
  | ok a c' => exact .inl ⟨a, c', fun levels d _ => lift_of_ok goes⟩
  | error e c' =>
    exact .inr ⟨e, c', unlimited c e c' goes, fun levels d _ => ⟨d, Nat.le_refl d, lift_of_error goes⟩⟩

/-- A type is settled if what follows its code is, with one level less. -/
lemma settled_typeWithin_cons
    (h : Settled (fun levels => typeAfter table levels b) least 0 ⟨pos + 1, rest⟩) :
    Settled (typeWithin table) (least + 1) 1 ⟨pos, b :: rest⟩ := by
  obtain ⟨t, c', goes⟩ | ⟨e, c', other, refused⟩ := h
  · refine .inl ⟨t, c', fun levels d enough => ?_⟩
    obtain ⟨levels, rfl⟩ := Nat.exists_eq_add_one.2 (Nat.zero_lt_of_lt enough)
    rw [typeWithin_cons, bind_of_ok (goes levels (d + 1) (Nat.le_of_succ_le_succ enough))]
    rfl
  · refine .inr ⟨e, c', other, fun levels d enough => ?_⟩
    obtain ⟨levels, rfl⟩ := Nat.exists_eq_add_one.2 (Nat.zero_lt_of_lt enough)
    obtain ⟨d', down, refused⟩ := refused levels (d + 1) (Nat.le_of_succ_le_succ enough)
    refine ⟨d', down, ?_⟩
    rw [typeWithin_cons, bind_of_error refused]

end

/-- A type that may nest deeper than it does is settled. -/
lemma settled_typeWithin (table : Table TypeRef) (c : Cursor) :
    Settled (typeWithin table) (c.levelsAhead + 1) 1 c := by
  obtain ⟨pos, bytes⟩ := c
  induction bytes generalizing pos with
  | nil =>
    refine .inr ⟨.outOfBounds, ⟨pos, []⟩, nofun, fun levels d enough => ?_⟩
    obtain ⟨levels, rfl⟩ := Nat.exists_eq_add_one.2 (Nat.zero_lt_of_lt enough)
    refine ⟨d + 1, Nat.le_refl _, ?_⟩
    rw [typeWithin_succ]
    rfl
  | cons b rest ih =>
    refine settled_typeWithin_cons ?_
    show Settled _ (Bytes.levels (b :: rest)) _ _
    obtain ⟨wraps, g, after⟩ | ⟨inner, others⟩ := typeAfter_cases table b
    · rw [Bytes.levels, if_pos wraps, funext after]
      exact (ih (pos + 1)).map g 0 (Nat.zero_le 1)
    · obtain ⟨t, after⟩ | ⟨g, after⟩ | after := others
      · rw [funext after]
        exact .inl ⟨t, ⟨pos + 1, rest⟩, fun _ _ _ => rfl⟩
      · rw [funext after]
        exact (settled_lift table.unlimited_readTypeRef).map g 0 (Nat.le_refl 0)
      · rw [funext after]
        refine .inr ⟨.malformed (.elementType b (pos + 1 - 1)), ⟨pos + 1, rest⟩, nofun, ?_⟩
        exact fun _ d _ => ⟨d, Nat.le_refl d, rfl⟩

/-! ## One type after another -/

/-- What a read makes of it that starts at a depth, beside what it makes at depth 0: it is refused for its
nesting if it nests too deep for the depth, and else does the same. If it is refused, levels are left. -/
inductive Fares (deep : Prop) (base : EStateM.Result Fault Cursor α) (d : Nat) :
    EStateM.Result Fault SignatureState α → Prop
  | limited {c' : Cursor} {d' : Nat} :
    deep →
    d < d' →
    Fares deep base d (.error (.recursionLimit maxDepth) ⟨c', d'⟩)
  | ok {a : α} {c' : Cursor} :
    ¬ deep →
    base = .ok a c' →
    Fares deep base d (.ok a ⟨c', d⟩)
  | error {e : Fault} {c' : Cursor} {d' : Nat} :
    ¬ deep →
    base = .error e c' →
    (∀ n, e ≠ .recursionLimit n) →
    d < d' →
    Fares deep base d (.error e ⟨c', d'⟩)

lemma Fares.congr {deep deep' : Prop} {base : EStateM.Result Fault Cursor α}
    {x : EStateM.Result Fault SignatureState α} (h : Fares deep base d x) (same : deep ↔ deep') :
    Fares deep' base d x := by
  cases same.eq
  exact h

/-- From each depth the read is refused for its nesting at the cursors that are too deep for it, and else
does what it does at depth 0. -/
def Nests (r : SignatureReader α) (deep : Nat → Cursor → Prop) : Prop :=
  ∀ c d, Fares (deep d c) (fresh r c) d (r ⟨c, d⟩)

lemma fresh_of_ok {r : SignatureReader α} {a : α} {s : SignatureState} (h : r ⟨c, 0⟩ = .ok a s) :
    fresh r c = .ok a s.cursor := by
  rw [fresh, h]

lemma fresh_of_error {r : SignatureReader α} {s : SignatureState} (h : r ⟨c, 0⟩ = .error e s) :
    fresh r c = .error e s.cursor := by
  rw [fresh, h]

section

variable {r : SignatureReader α} {f : α → SignatureReader β} {P P' : Nat → Cursor → Prop}
  {Q : α → Nat → Cursor → Prop}

lemma Nests.congr (h : Nests r P) (same : ∀ d c, P d c ↔ P' d c) : Nests r P' :=
  fun c d => (h c d).congr (same d c)

lemma Nests.pure (a : α) : Nests (Pure.pure a) fun _ _ => False :=
  fun _ _ => .ok not_false rfl

/-- A read that goes well at depth 0 stays there, so what is read behind it starts from depth 0. -/
lemma Nests.fresh_bind (hr : Nests r P) (c : Cursor) :
    fresh (r >>= f) c = (fresh r >>= fun a => fresh (f a)) c := by
  have fares := hr c 0
  generalize first : r ⟨c, 0⟩ = x at fares
  cases fares with
  | ok _ _ =>
    rw [bind_of_ok (fresh_of_ok first), fresh, bind_of_ok first, fresh]
  | limited _ _ =>
    rw [bind_of_error (fresh_of_error first), fresh, bind_of_error first]
  | error _ _ _ _ =>
    rw [bind_of_error (fresh_of_error first), fresh, bind_of_error first]

/-- Two reads one after another are refused where the first is, or where the second is behind it. -/
lemma Nests.bind (hr : Nests r P) (hf : ∀ a, Nests (f a) (Q a)) :
    Nests (r >>= f) fun d c => P d c ∨ ∃ a c₁, fresh r c = .ok a c₁ ∧ Q a d c₁ := by
  intro c d
  have fares := hr c d
  rw [hr.fresh_bind]
  generalize first : r ⟨c, d⟩ = x at fares
  cases fares with
  | limited deep down =>
    rw [bind_of_error first]
    exact .limited (.inl deep) down
  | @ok a c₁ shallow base =>
    rw [bind_of_ok first, bind_of_ok base]
    have behind : Q a d c₁ ↔ P d c ∨ ∃ a c₁, fresh r c = .ok a c₁ ∧ Q a d c₁ := by
      constructor
      · exact fun deep => .inr ⟨a, c₁, base, deep⟩
      · rintro (deep | ⟨a', c₁', base', deep⟩)
        · exact absurd deep shallow
        · cases base.symm.trans base'
          exact deep
    exact (hf a c₁ d).congr behind
  | error shallow base other down =>
    rw [bind_of_error first, bind_of_error base]
    refine .error ?_ rfl other down
    rintro (deep | ⟨a, c₁, base', _⟩)
    · exact shallow deep
    · cases base.symm.trans base'

lemma Nests.bind_pure (hr : Nests r P) (g : α → β) : Nests (r >>= fun a => Pure.pure (g a)) P := by
  refine (hr.bind fun a => .pure (g a)).congr fun d c => or_iff_left ?_
  rintro ⟨_, _, _, impossible⟩
  exact impossible

end

/-- Types are refused for their nesting where the levels above the innermost one and those of the depth
make up the limit. -/
lemma nests_type (table : Table TypeRef) :
    Nests (type table) fun d c => maxNesting ≤ d + c.levelsAhead := by
  intro c d
  show Fares _ _ d (typeWithin table (maxNesting - d) ⟨c, d⟩)
  by_cases deep : maxNesting ≤ d + c.levelsAhead
  · obtain ⟨c', d', down, refused⟩ := typeWithin_limited table (Nat.sub_le_iff_le_add'.2 deep) d
    rw [refused]
    exact .limited deep down
  · have room : c.levelsAhead + 1 ≤ maxNesting - d := by omega
    have above : c.levelsAhead + 1 ≤ maxNesting - 0 := by omega
    obtain ⟨t, c', goes⟩ | ⟨e, c', other, refused⟩ := settled_typeWithin table c
    · rw [goes _ d room]
      exact .ok deep (fresh_of_ok (goes _ 0 above))
    · obtain ⟨d', down, here⟩ := refused _ d room
      obtain ⟨_, _, base⟩ := refused _ 0 above
      rw [here]
      exact .error deep (fresh_of_error base) other down

/-- The cursors at which the types stand when so many are read one after another. -/
inductive TypesFrom (table : Table TypeRef) : Nat → Cursor → Cursor → Prop
  | here {n : Nat} {c : Cursor} : TypesFrom table (n + 1) c c
  | behind {n : Nat} {t : TypeSig} {c c₁ c' : Cursor} :
    fresh (type table) c = .ok t c₁ →
    TypesFrom table n c₁ c' →
    TypesFrom table (n + 1) c c'

/-- One of so many types nests too deep for the depth. -/
def TooDeep (table : Table TypeRef) (n d : Nat) (c : Cursor) : Prop :=
  ∃ c', TypesFrom table n c c' ∧ maxNesting ≤ d + c'.levelsAhead

lemma tooDeep_succ_iff : TooDeep table (n + 1) d c ↔ maxNesting ≤ d + c.levelsAhead
    ∨ ∃ t c₁, fresh (type table) c = .ok t c₁ ∧ TooDeep table n d c₁ := by
  constructor
  · rintro ⟨c', at', deep⟩
    cases at' with
    | here => exact .inl deep
    | behind first behind => exact .inr ⟨_, _, first, c', behind, deep⟩
  · rintro (deep | ⟨t, c₁, first, c', behind, deep⟩)
    · exact ⟨c, .here, deep⟩
    · exact ⟨c', .behind first behind, deep⟩

/-- A type is read, and then the others. -/
lemma nests_cons (others : Nests (types table n) (TooDeep table n)) (g : TypeSig → List TypeSig → α) :
    Nests (do
      let t ← type table
      let ts ← types table n
      return g t ts) (TooDeep table (n + 1)) :=
  ((nests_type table).bind fun t => others.bind_pure (g t)).congr fun _ _ => tooDeep_succ_iff.symm

lemma nests_types (table : Table TypeRef) (n : Nat) : Nests (types table n) (TooDeep table n) := by
  induction n with
  | zero =>
    refine (Nests.pure []).congr fun d c => ⟨False.elim, ?_⟩
    rintro ⟨c', at', _⟩
    cases at'
  | succ n ih => exact nests_cons ih (· :: ·)

/-! ## Calls -/

/-- What a reader of signatures can be asked to read. -/
inductive Call where
  | type
  | method
  | field

/-- What it gives. -/
inductive Reply where
  | type (t : TypeSig)
  | method (m : MethodSig)
  | field (t : TypeSig)

/-- Makes a call. -/
def Call.read (table : Table TypeRef) : Call → SignatureReader Reply
  | .type => do
    return .type (← SignatureReader.type table)
  | .method => do
    return .method (← SignatureReader.method table)
  | .field => do
    return .field (← SignatureReader.field table)

/-- What stands ahead of the types of a signature: how many come behind the first, and what they all make
up. -/
structure Head where
  others : Nat
  make : TypeSig → List TypeSig → Reply

/-- Reads what stands ahead of the types. -/
def Call.head : Call → Reader Head
  | .type => return ⟨0, fun t _ => .type t⟩
  | .method => do
    let mark ← Reader.uint8
    if mark ≠ 0 ∧ mark ≠ ElementCode.hasThis then
      throw (.malformed (.callingConvention mark))
    let count ← Reader.count
    return ⟨count, fun ret params => .method ⟨mark = ElementCode.hasThis, ret, params⟩⟩
  | .field => do
    let mark ← Reader.uint8
    if mark ≠ ElementCode.field then
      throw (.malformed (.notFieldSignature mark))
    return ⟨0, fun t _ => .field t⟩

/-- Reads the types. -/
def Head.readTypes (table : Table TypeRef) (h : Head) : SignatureReader Reply := do
  let t ← SignatureReader.type table
  let ts ← types table h.others
  return h.make t ts

lemma lift_pure (a : α) : lift (Pure.pure a) = Pure.pure a :=
  rfl

lemma lift_bind (r : Reader α) (f : α → Reader β) : lift (r >>= f) = lift r >>= fun a => lift (f a) := by
  funext ⟨c, d⟩
  cases first : r c with
  | ok a c₁ => rw [bind_of_ok (lift_of_ok first), lift, lift, bind_of_ok first]
  | error e c₁ => rw [bind_of_error (lift_of_error first), lift, bind_of_error first]

/-- A call reads what stands ahead of the types, and then the types. -/
lemma read_eq (table : Table TypeRef) (call : Call) :
    call.read table = lift call.head >>= (·.readTypes table) := by
  cases call with
  | type => rfl
  | method =>
    simp only [Call.read, Call.head, method, lift_bind, bind_assoc]
    refine congrArg (lift Reader.uint8 >>= ·) (funext fun mark => ?_)
    by_cases unknown : mark ≠ 0 ∧ mark ≠ ElementCode.hasThis
    · rw [if_pos unknown, if_pos unknown]
      rfl
    · rw [if_neg unknown, if_neg unknown]
      simp only [lift_bind, lift_pure, bind_assoc, pure_bind, Head.readTypes]
  | field =>
    simp only [Call.read, Call.head, field, lift_bind, bind_assoc]
    refine congrArg (lift Reader.uint8 >>= ·) (funext fun mark => ?_)
    by_cases unknown : mark ≠ ElementCode.field
    · rw [if_pos unknown, if_pos unknown]
      rfl
    · rw [if_neg unknown, if_neg unknown]
      rfl

lemma unlimited_head (call : Call) : call.head.Unlimited := by
  cases call with
  | type => exact .pure _
  | method =>
    have counted (mark : UInt8) : (do
        let count ← Reader.count
        return (⟨count, fun ret params => .method ⟨mark = ElementCode.hasThis, ret, params⟩⟩ : Head) :
          Reader Head).Unlimited := Reader.unlimited_count.bind fun count => .pure _
    refine Reader.unlimited_uint8.bind fun mark => .ite ?_ (counted mark)
    exact (Reader.unlimited_malformed _).bind fun _ => counted mark
  | field =>
    refine Reader.unlimited_uint8.bind fun mark => .ite ?_ (.pure _)
    exact (Reader.unlimited_malformed _).bind fun _ => .pure _

/-- A call that is refused ahead of the types leaves the depth as it was. -/
lemma read_of_head_error {call : Call} (h : call.head c = .error e c') :
    call.read table ⟨c, d⟩ = .error e ⟨c', d⟩ := by
  rw [read_eq, bind_of_error (lift_of_error h)]

/-- A call that comes to the types fares as they do. -/
lemma read_fares (table : Table TypeRef) {call : Call} {h : Head} {c₁ : Cursor}
    (came : call.head c = .ok h c₁) (d : Nat) :
    Fares (TooDeep table (h.others + 1) d c₁) (fresh (call.read table) c) d (call.read table ⟨c, d⟩) := by
  have base : fresh (call.read table) c = fresh (h.readTypes table) c₁ := by
    rw [fresh, fresh, read_eq, bind_of_ok (lift_of_ok came)]
  rw [base, read_eq, bind_of_ok (lift_of_ok came)]
  exact nests_cons (nests_types table h.others) h.make c₁ d

/-- The cursors at which the types stand that a call reads. -/
def Call.ComesTo (table : Table TypeRef) (call : Call) (c c' : Cursor) : Prop :=
  ∃ h c₁, call.head c = .ok h c₁ ∧ TypesFrom table (h.others + 1) c₁ c'

/-! ## One call after another -/

/-- The calls that were made, the latest first, each with the cursor that it was made at and its
outcome. -/
abbrev History := List (Call × Cursor × Except Fault Reply)

/-- The state is what a history of calls makes of a new reader. -/
inductive Reached (table : Table TypeRef) : History → SignatureState → Prop
  | start (c : Cursor) : Reached table [] ⟨c, 0⟩
  | ok {history : History} {s s' : SignatureState} {call : Call} {reply : Reply} :
    Reached table history s →
    call.read table s = .ok reply s' →
    Reached table ((call, s.cursor, .ok reply) :: history) s'
  | error {history : History} {s s' : SignatureState} {call : Call} {e : Fault} :
    Reached table history s →
    call.read table s = .error e s' →
    Reached table ((call, s.cursor, .error e) :: history) s'

/-- No call failed within a type: those that failed did so ahead of the types. -/
def History.Clean (history : History) : Prop :=
  ∀ call c e, (call, c, .error e) ∈ history → ∃ e' c', call.head c = .error e' c'

lemma History.clean_cons_iff {call : Call} {outcome : Except Fault Reply} {history : History} :
    Clean ((call, c, outcome) :: history)
      ↔ (∀ e, outcome = .error e → ∃ e' c', call.head c = .error e' c') ∧ history.Clean := by
  constructor
  · intro clean
    refine ⟨fun e same => clean call c e ?_, fun call' c' e mem => clean call' c' e (.tail _ mem)⟩
    rw [same]
    exact .head history
  · rintro ⟨latest, clean⟩ call' c' e mem
    obtain same | mem := List.mem_cons.1 mem
    · cases same
      exact latest e rfl
    · exact clean call' c' e mem

variable {history : History} {s s' : SignatureState} {call : Call} {reply : Reply}

/-- A call that goes well ends at the depth that it started from. -/
lemma depth_of_read_ok (h : call.read table s = .ok reply s') : s'.depth = s.depth := by
  cases came : call.head s.cursor with
  | ok head c₁ =>
    have fares := read_fares table came s.depth
    rw [h] at fares
    cases fares
    rfl
  | error e c₁ => cases h.symm.trans (read_of_head_error came)

/-- A call that is refused leaves the depth as it was ahead of the types, and levels within one. -/
lemma depth_of_read_error (h : call.read table s = .error e s') :
    (∃ e' c₁, call.head s.cursor = .error e' c₁) ∧ s'.depth = s.depth
      ∨ (¬ ∃ e' c₁, call.head s.cursor = .error e' c₁) ∧ s.depth < s'.depth := by
  cases came : call.head s.cursor with
  | ok head c₁ =>
    have fares := read_fares table came s.depth
    rw [h] at fares
    refine .inr ⟨?_, ?_⟩
    · rintro ⟨_, _, impossible⟩
      cases impossible
    · cases fares with
      | limited _ down => exact down
      | error _ _ _ down => exact down
  | error e' c₁ =>
    cases h.symm.trans (read_of_head_error came)
    exact .inl ⟨⟨_, _, rfl⟩, rfl⟩

/-- The depth is greater than 0 only if a call failed within a type. -/
lemma Reached.depth_eq_zero_iff (h : Reached table history s) : s.depth = 0 ↔ history.Clean := by
  induction h with
  | start c =>
    refine iff_of_true rfl ?_
    intro _ _ _ mem
    cases mem
  | ok _ read ih =>
    rw [depth_of_read_ok read, ih, History.clean_cons_iff]
    exact (and_iff_right fun _ impossible => by cases impossible).symm
  | error _ read ih =>
    rw [History.clean_cons_iff, ← ih]
    obtain ⟨ahead, kept⟩ | ⟨within, down⟩ := depth_of_read_error read
    · rw [kept]
      exact (and_iff_right fun _ _ => ahead).symm
    · exact iff_of_false (Nat.ne_zero_of_lt down) fun ⟨ahead, _⟩ => within (ahead _ rfl)

/-- A call is refused for its nesting just where a type that it comes to nests too deep for the depth. -/
lemma read_limited_iff (table : Table TypeRef) (call : Call) (s : SignatureState) :
    (∃ s', call.read table s = .error (.recursionLimit maxDepth) s')
      ↔ ∃ c', call.ComesTo table s.cursor c' ∧ maxNesting ≤ s.depth + c'.levelsAhead := by
  cases came : call.head s.cursor with
  | ok head c₁ =>
    have deep : TooDeep table (head.others + 1) s.depth c₁
        ↔ ∃ c', call.ComesTo table s.cursor c' ∧ maxNesting ≤ s.depth + c'.levelsAhead := by
      constructor
      · rintro ⟨c', at', deep⟩
        exact ⟨c', ⟨head, c₁, came, at'⟩, deep⟩
      · rintro ⟨c', ⟨head', c₁', came', at'⟩, deep⟩
        cases came.symm.trans came'
        exact ⟨c', at', deep⟩
    rw [← deep]
    have fares := read_fares table came s.depth
    constructor
    · rintro ⟨s', h⟩
      rw [h] at fares
      cases fares with
      | limited deep _ => exact deep
      | error _ _ other _ => exact absurd rfl (other maxDepth)
    · intro deep
      generalize call.read table s = x at fares
      cases fares with
      | limited _ _ => exact ⟨_, rfl⟩
      | ok shallow _ => exact absurd deep shallow
      | error shallow _ _ _ => exact absurd deep shallow
  | error e c₁ =>
    constructor
    · rintro ⟨s', h⟩
      cases h.symm.trans (read_of_head_error came)
      exact absurd rfl (unlimited_head call _ _ _ came maxDepth)
    · rintro ⟨c', ⟨head, c₁', came', _⟩, _⟩
      cases came.symm.trans came'

/-- What a read makes of it that starts at a depth. -/
def atDepth (r : SignatureReader α) (d : Nat) : Reader α := fun c =>
  match r ⟨c, d⟩ with
  | .ok a s => .ok a s.cursor
  | .error e s => .error e s.cursor

/-- A call that comes to no type that nests too deep for the depth does what it does on a new reader. -/
lemma atDepth_of_shallow
    (shallow : ∀ c', call.ComesTo table c c' → d + c'.levelsAhead < maxNesting) :
    atDepth (call.read table) d c = fresh (call.read table) c := by
  rw [atDepth]
  cases came : call.head c with
  | ok head c₁ =>
    have fares := read_fares table came d
    generalize call.read table ⟨c, d⟩ = x at fares
    cases fares with
    | limited deep _ =>
      obtain ⟨c', at', deep⟩ := deep
      exact absurd deep (Nat.not_le.2 (shallow c' ⟨head, c₁, came, at'⟩))
    | ok _ base => exact base.symm
    | error _ base _ _ => exact base.symm
  | error e c₁ => rw [fresh, read_of_head_error came, read_of_head_error came]

/-- As long as no call failed within a type, a call is refused for its nesting just where a type that it
comes to itself nests to the limit, and does what it does on a new reader. Behind a call that failed within
a type, the levels that it left count as well; only where they do not make up the limit do calls fare as on
a new reader. -/
theorem Reached.reads_as_new (h : Reached table history s) :
    (history.Clean → ∀ call : Call,
        ((∃ s', call.read table s = .error (.recursionLimit maxDepth) s')
          ↔ ∃ c', call.ComesTo table s.cursor c' ∧ maxNesting ≤ c'.levelsAhead)
        ∧ atDepth (call.read table) s.depth s.cursor = fresh (call.read table) s.cursor)
      ∧ (¬ history.Clean → 0 < s.depth ∧ ∀ call : Call,
        ((∃ s', call.read table s = .error (.recursionLimit maxDepth) s')
          ↔ ∃ c', call.ComesTo table s.cursor c' ∧ maxNesting ≤ s.depth + c'.levelsAhead)
        ∧ ((∀ c', call.ComesTo table s.cursor c' → s.depth + c'.levelsAhead < maxNesting) →
          atDepth (call.read table) s.depth s.cursor = fresh (call.read table) s.cursor)) := by
  refine ⟨fun clean call => ?_, fun unclean => ⟨?_, fun call => ?_⟩⟩
  · have start : s.depth = 0 := h.depth_eq_zero_iff.2 clean
    have limited := read_limited_iff table call s
    rw [start] at limited ⊢
    simp only [Nat.zero_add] at limited
    exact ⟨limited, rfl⟩
  · exact Nat.pos_of_ne_zero fun start => unclean (h.depth_eq_zero_iff.1 start)
  · exact ⟨read_limited_iff table call s, atDepth_of_shallow⟩

namespace Example

/-- A mark that is no field's, and a type behind it. -/
def mismarked : Cursor :=
  .start [0x07, 0x01]

/-- A field was asked for and refused for the mark. -/
def mismarking : History :=
  [(.field, mismarked, .error (.malformed (.notFieldSignature 0x07)))]

/-- The type behind the mark is read as on a new reader. -/
theorem mismarked_reads_on : Reached .empty mismarking ⟨⟨1, [0x01]⟩, 0⟩ ∧ mismarking.Clean
    ∧ ((∃ s', Call.type.read .empty ⟨⟨1, [0x01]⟩, 0⟩ = .error (.recursionLimit maxDepth) s')
      ↔ ∃ c', Call.type.ComesTo .empty ⟨1, [0x01]⟩ c' ∧ maxNesting ≤ c'.levelsAhead)
    ∧ fresh (Call.type.read .empty) ⟨1, [0x01]⟩ = .ok (.type (.prim .void)) ⟨2, []⟩ := by
  have reached : Reached .empty mismarking ⟨⟨1, [0x01]⟩, 0⟩ := .error (.start mismarked) rfl
  have clean : mismarking.Clean := reached.depth_eq_zero_iff.1 rfl
  exact ⟨reached, clean, ((Reached.reads_as_new reached).1 clean .type).1, rfl⟩

/-- The address of an address and so on, of which the innermost target is none. -/
def aimless (k : Nat) (rest : Bytes) : Bytes :=
  List.replicate k ElementCode.byRef ++ 0x13 :: rest

/-- All levels are left when the innermost target is refused. -/
lemma typeWithin_aimless {k : Nat} (room : k < levels) (table : Table TypeRef) (pos d : Nat)
    (rest : Bytes) : typeWithin table levels ⟨⟨pos, aimless k rest⟩, d⟩
      = .error (.malformed (.elementType 0x13 (pos + k))) ⟨⟨pos + k + 1, rest⟩, d + k + 1⟩ := by
  obtain ⟨levels, rfl⟩ := Nat.exists_eq_add_one.2 (Nat.zero_lt_of_lt room)
  induction k generalizing levels pos d with
  | zero =>
    show typeWithin table (levels + 1) ⟨⟨pos, 0x13 :: rest⟩, d⟩ = _
    rw [typeWithin_cons]
    rfl
  | succ k ih =>
    obtain ⟨levels, rfl⟩ := Nat.exists_eq_add_one.2 (Nat.zero_lt_of_lt (Nat.lt_of_succ_lt_succ room))
    show typeWithin table (levels + 1 + 1) ⟨⟨pos, ElementCode.byRef :: aimless k rest⟩, d⟩ = _
    have inner : typeAfter table (levels + 1) ElementCode.byRef
        = .byRef <$> typeWithin table (levels + 1) := rfl
    rw [typeWithin_cons, inner, map_eq_pure_bind]
    rw [bind_of_error (bind_of_error (ih (pos + 1) (d + 1) levels (Nat.lt_of_succ_lt_succ room)))]
    have place : pos + 1 + k = pos + (k + 1) := by omega
    have level : d + 1 + k = d + (k + 1) := by omega
    rw [place, level]

lemma read_aimless {k : Nat} (room : d + k < maxNesting) (table : Table TypeRef) (pos : Nat)
    (rest : Bytes) : Call.type.read table ⟨⟨pos, aimless k rest⟩, d⟩
      = .error (.malformed (.elementType 0x13 (pos + k))) ⟨⟨pos + k + 1, rest⟩, d + k + 1⟩ := by
  have levels : k < maxNesting - d := by omega
  have refused : type table ⟨⟨pos, aimless k rest⟩, d⟩ = _ := typeWithin_aimless levels table pos d rest
  exact bind_of_error refused

/-- The levels of the type that was refused are left, and the next one is refused for its nesting though it
does not nest. -/
theorem aimless_leaves_levels :
    Reached .empty [(.type, ⟨0, aimless 48 [0x01]⟩, .error (.malformed (.elementType 0x13 48)))]
        ⟨⟨49, [0x01]⟩, 49⟩
      ∧ Call.type.read .empty ⟨⟨49, [0x01]⟩, 49⟩ = .error (.recursionLimit 50) ⟨⟨49, [0x01]⟩, 50⟩
      ∧ fresh (Call.type.read .empty) ⟨49, [0x01]⟩ = .ok (.type (.prim .void)) ⟨50, []⟩
      ∧ Cursor.levelsAhead ⟨49, [0x01]⟩ = 0 := by
  have refused := read_aimless (d := 0) (k := 48) (by decide) .empty 0 [0x01]
  exact ⟨.error (.start ⟨0, aimless 48 [0x01]⟩) refused, rfl, rfl, rfl⟩

end Example

end SignatureReader
end HookWeave

import HookWeave.Proofs.Bytes.Finds
import HookWeave.Proofs.Signature.Codec

/-!
# What signatures are found to be

A signature that was written is found to be nothing but itself, however deep its types nest
(`found_type`, `found_method`, `found_field`): where the reader runs out of levels it refuses the bytes
instead of making something else of them.
-/

namespace HookWeave
namespace SignatureReader

variable {α β : Type} {r : SignatureReader α} {f : α → SignatureReader β} {P : α → Prop} {Q : β → Prop}
  {a : α} {d m n : Nat} {s w bytes : Bytes} {t t' : Table TypeRef}

/-- If the read goes well on these bytes, whatever follows, then it takes exactly these bytes, goes from
one depth to another and gives what has the property. -/
def Finds (r : SignatureReader α) (d n : Nat) (bytes : Bytes) (P : α → Prop) : Prop :=
  ∀ pos rest a s, r ⟨⟨pos, bytes ++ rest⟩, d⟩ = .ok a s → P a ∧ s = ⟨⟨pos + bytes.length, rest⟩, n⟩

/-! ## Composition -/

lemma Reads.finds (h : r.Reads d n bytes a) : r.Finds d n bytes (· = a) := by
  intro pos rest a' s read
  cases (h pos rest).symm.trans read
  exact ⟨rfl, rfl⟩

lemma Finds.pure (h : P a) : (Pure.pure a : SignatureReader α).Finds d d [] P := by
  intro pos rest a' s read
  cases read
  exact ⟨h, rfl⟩

lemma Finds.bind (hr : r.Finds d m s P) (hf : ∀ a, P a → (f a).Finds m n w Q) :
    (r >>= f).Finds d n (s ++ w) Q := by
  intro pos rest b c read
  rw [List.append_assoc] at read
  obtain ⟨a, c₁, first, second⟩ := edit_bind_eq_ok.1 read
  obtain ⟨found, rfl⟩ := hr pos (w ++ rest) a c₁ first
  obtain ⟨found', rfl⟩ := hf a found _ rest b c second
  refine ⟨found', ?_⟩
  rw [List.length_append, Nat.add_assoc]

/-- A read that goes well is followed by one that finds something. -/
lemma Reads.bind_finds (hr : r.Reads d m s a) (hf : (f a).Finds m n w Q) :
    (r >>= f).Finds d n (s ++ w) Q :=
  hr.finds.bind fun _ same => same ▸ hf

lemma Finds.bind_nil (hr : r.Finds d m s P) (hf : ∀ a, P a → (f a).Finds m n [] Q) :
    (r >>= f).Finds d n s Q := by
  have h := hr.bind hf
  rw [List.append_nil] at h
  exact h

lemma Finds.map {g : α → β} (hr : r.Finds d n s P) (hg : ∀ a, P a → Q (g a)) :
    (g <$> r).Finds d n s Q := by
  rw [map_eq_pure_bind]
  exact hr.bind_nil fun a found => .pure (hg a found)

lemma finds_lift {r : Reader α} (h : r.Finds bytes P) : (lift r).Finds d d bytes P := by
  intro pos rest a s read
  unfold lift at read
  split at read
  · next first =>
    cases read
    obtain ⟨found, rfl⟩ := h _ _ _ _ first
    exact ⟨found, rfl⟩
  · cases read

lemma finds_fresh (h : r.Finds 0 n bytes P) : (fresh r).Finds bytes P := by
  intro pos rest a c read
  unfold fresh at read
  split at read
  · next first =>
    cases read
    obtain ⟨found, rfl⟩ := h _ _ _ _ first
    exact ⟨found, rfl⟩
  · cases read

/-! ## Types -/

/-- What is found one level down is found up here; where no level is left, every type is refused. -/
lemma finds_typeWithin {table : Table TypeRef} {levels : Nat} {code : UInt8} {P : TypeSig → Prop}
    (inner : ∀ left, levels = left + 1 → (typeAfter table left code).Finds (d + 1) (d + 1) s P) :
    (typeWithin table levels).Finds d d (code :: s) P := by
  cases levels with
  | zero =>
    intro pos rest a s read
    cases read
  | succ left =>
    rw [typeWithin_succ]
    refine Reads.bind_finds (s := []) reads_enter ?_
    refine Reads.bind_finds (s := [code]) (reads_lift (Reader.reads_uint8 code)) ?_
    refine (inner left rfl).bind_nil fun type found => ?_
    exact Reads.bind_finds (s := []) reads_leave (.pure found)

/-- A type is found to be itself, whatever the number of levels. -/
lemma finds_spelled {table : Table TypeRef} {type : TypeSig} (h : type.Spelled table bytes) (levels d : Nat) :
    (typeWithin table levels).Finds d d bytes (· = type) := by
  induction h generalizing levels d with
  | prim =>
    refine finds_typeWithin fun left _ => ?_
    rw [typeAfter, ofCode?_code]
    exact .pure rfl
  | refType named =>
    refine finds_typeWithin fun left _ => ?_
    exact ((reads_lift (Table.reads_readTypeRef named.reads)).map TypeSig.refType).finds
  | valueType named =>
    refine finds_typeWithin fun left _ => ?_
    exact ((reads_lift (Table.reads_readTypeRef named.reads)).map TypeSig.valueType).finds
  | byRef _ ih =>
    refine finds_typeWithin fun left _ => ?_
    exact (ih left (d + 1)).map fun _ same => congrArg TypeSig.byRef same
  | array _ ih =>
    refine finds_typeWithin fun left _ => ?_
    exact (ih left (d + 1)).map fun _ same => congrArg TypeSig.array same

lemma finds_type {table : Table TypeRef} {type : TypeSig} (h : type.Spelled table bytes) :
    (SignatureReader.type table).Finds 0 0 bytes (· = type) := by
  intro pos rest
  exact finds_spelled h maxNesting 0 pos rest

/-- A type is found to be itself. -/
lemma found_type {type : TypeSig} (h : type.encode t = .ok (bytes, t')) :
    Interned t t' fun table => (SignatureReader.type table).Finds 0 0 bytes (· = type) :=
  (spelled_type h).imp fun _ => finds_type

/-! ## Signatures -/

/-- Types are found to be themselves, one after another. -/
lemma finds_types {table : Table TypeRef} {types : List TypeSig} (h : TypeSig.SpelledAll table types bytes) :
    (SignatureReader.types table types.length).Finds 0 0 bytes (· = types) := by
  induction h with
  | nil => exact .pure rfl
  | cons first _ ih =>
    refine (finds_type first).bind fun _ same => ih.bind_nil fun _ same' => .pure ?_
    rw [same, same']

lemma finds_method {table : Table TypeRef} {sig : MethodSig} (h : sig.Spelled table bytes) :
    (SignatureReader.method table).Finds 0 0 bytes (· = sig) := by
  cases h with
  | @intro count ret params counted returned taken =>
    have parts : (lift Reader.count >>= fun count => SignatureReader.type table >>= fun ret =>
        types table count >>= fun params => pure (⟨sig.hasThis, ret, params⟩ : MethodSig)).Finds 0 0
        (count ++ (ret ++ params)) (· = sig) := by
      refine (finds_lift (Reader.finds_count counted)).bind fun n same => ?_
      cases same
      refine (finds_type returned).bind fun ret same => (finds_types taken).bind_nil fun params same' => .pure ?_
      rw [same, same']
    refine Reads.bind_finds (s := [_]) (reads_lift (Reader.reads_uint8 _)) ?_
    cases receiver : sig.hasThis with
    | true =>
      rw [receiver] at parts
      exact parts
    | false =>
      rw [receiver] at parts
      exact parts

/-- A method signature is found to be itself. -/
lemma found_method {sig : MethodSig} (h : sig.encode t = .ok (bytes, t')) :
    Interned t t' fun table => (SignatureReader.method table).Finds 0 0 bytes (· = sig) :=
  (spelled_method h).imp fun _ => finds_method

/-- A field signature is found to be itself. -/
lemma found_field {type : TypeSig} (h : type.encodeField t = .ok (bytes, t')) :
    Interned t t' fun table => (SignatureReader.field table).Finds 0 0 bytes (· = type) := by
  refine (spelled_field h).imp fun table ⟨typed, same, spelled⟩ => ?_
  rw [same]
  refine Reads.bind_finds (s := [ElementCode.field]) (reads_lift (Reader.reads_uint8 _)) ?_
  rw [if_neg (not_not_intro rfl)]
  exact finds_type spelled

end SignatureReader
end HookWeave

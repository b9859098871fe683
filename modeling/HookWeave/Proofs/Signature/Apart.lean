import HookWeave.Proofs.Signature.Codec

/-!
# Spellings that can be told apart

Two runs of bytes are apart up to `P` if they cannot be continued to the same bytes unless `P` holds, and then
end together (`Apart`). That is so for the bytes of a read, up to what is read (`Reader.Reads.apart`), and it
composes along `++`. So the spellings of type references, types and method signatures in one table are apart up
to what they spell (`TypeSig.Spelled.apart`, `MethodSig.Spelled.apart`), however deep the types nest.
-/

namespace HookWeave

/-- Whatever follows the two runs of bytes, they make up the same bytes only if `P` holds and what follows is
the same too. -/
def Apart (s s' : Bytes) (P : Prop) : Prop :=
  ∀ rest rest', s ++ rest = s' ++ rest' → P ∧ rest = rest'

variable {s s' w w' : Bytes} {P Q : Prop}

namespace Apart

lemma imp (h : Apart s s' P) (weaker : P → Q) : Apart s s' Q :=
  fun rest rest' same => (h rest rest' same).imp_left weaker

lemma nil (h : P) : Apart [] [] P :=
  fun _ _ same => ⟨h, same⟩

/-- The second runs count once the first ones are told to be the same. -/
lemma append (h : Apart s s' P) (h' : P → Apart w w' Q) : Apart (s ++ w) (s' ++ w') (P ∧ Q) := by
  intro rest rest' same
  rw [List.append_assoc, List.append_assoc] at same
  obtain ⟨first, same⟩ := h _ _ same
  obtain ⟨second, same⟩ := h' first rest rest' same
  exact ⟨⟨first, second⟩, same⟩

lemma cons {b b' : UInt8} (h : b = b' → Apart s s' P) : Apart (b :: s) (b' :: s') (b = b' ∧ P) := by
  intro rest rest' same
  obtain ⟨first, same⟩ := List.cons.inj same
  obtain ⟨second, same⟩ := h first rest rest' same
  exact ⟨⟨first, second⟩, same⟩

lemma of_length (same : s.length = s'.length) : Apart s s' (s = s') :=
  fun _ _ h => List.append_inj h same

/-- What is spelled by the same bytes is the same. -/
lemma of_eq (h : Apart s s' P) (same : s = s') : P :=
  (h [] [] (same ▸ rfl)).1

end Apart

/-! ## Reads -/

namespace Reader

variable {α : Type} {r : Reader α} {a a' : α} {n n' : Nat} {text text' : String} {bytes bytes' : Bytes}

lemma Reads.apart (h : r.Reads s a) (h' : r.Reads s' a') : Apart s s' (a = a') := by
  intro rest rest' same
  have reads := h 0 rest
  rw [same, h' 0 rest'] at reads
  obtain ⟨value, cursor⟩ := EStateM.Result.ok.inj reads
  exact ⟨value.symm, (congrArg Cursor.rest cursor).symm⟩

lemma apart_compressed (h : Encoding.compressed n = .ok s) (h' : Encoding.compressed n' = .ok s') :
    Apart s s' (n = n') :=
  (reads_compressed h).apart (reads_compressed h')

lemma apart_string (h : Encoding.string text = .ok s) (h' : Encoding.string text' = .ok s') :
    Apart s s' (text = text') :=
  (reads_string h).apart (reads_string h')

end Reader

lemma SignatureReader.Reads.apart {α : Type} {r : SignatureReader α} {a a' : α} {d n n' : Nat}
    (h : r.Reads d n s a) (h' : r.Reads d n' s' a') : Apart s s' (a = a') := by
  intro rest rest' same
  have reads := h 0 rest
  rw [same, h' 0 rest'] at reads
  obtain ⟨value, state⟩ := EStateM.Result.ok.inj reads
  exact ⟨value.symm, (congrArg (·.cursor.rest) state).symm⟩

/-! ## Types -/

variable {table later : Table TypeRef}

lemma TypeRef.Spelled.of_prefix {ref : TypeRef} (h : ref.Spelled table s)
    (goes : table.rows <+: later.rows) : ref.Spelled later s := by
  obtain ⟨k, encoded, found⟩ := h
  exact ⟨k, encoded, Table.getElem?_of_prefix goes found⟩

lemma TypeRef.Spelled.apart {ref ref' : TypeRef} (h : ref.Spelled table s) (h' : ref'.Spelled table s') :
    Apart s s' (ref = ref') :=
  (h.reads.apart h'.reads).imp Option.some.inj

lemma TypeSig.Spelled.of_prefix {type : TypeSig} (h : type.Spelled table s)
    (goes : table.rows <+: later.rows) : type.Spelled later s := by
  induction h with
  | prim => exact .prim
  | refType named => exact .refType (named.of_prefix goes)
  | valueType named => exact .valueType (named.of_prefix goes)
  | byRef _ ih => exact .byRef ih
  | array _ ih => exact .array ih

/-- There are always levels enough for two types. -/
lemma TypeSig.Spelled.apart {type type' : TypeSig} (h : type.Spelled table s)
    (h' : type'.Spelled table s') : Apart s s' (type = type') := by
  have enough : type.nesting < type.nesting + type'.nesting + 1 := by omega
  have enough' : type'.nesting < type.nesting + type'.nesting + 1 := by omega
  exact (SignatureReader.reads_spelled h enough 0).apart (SignatureReader.reads_spelled h' enough' 0)

/-! ## Types one after another -/

lemma TypeSig.SpelledAll.of_prefix {types : List TypeSig} (h : SpelledAll table types s)
    (goes : table.rows <+: later.rows) : SpelledAll later types s := by
  induction h with
  | nil => exact .nil
  | cons first _ ih => exact .cons (first.of_prefix goes) ih

/-- As many types are told apart one after another. -/
lemma TypeSig.SpelledAll.apart {types types' : List TypeSig} (h : SpelledAll table types s)
    (h' : SpelledAll table types' s') (same : types.length = types'.length) :
    Apart s s' (types = types') := by
  induction h generalizing types' s' with
  | nil =>
    cases h' with
    | nil => exact .nil rfl
    | cons => cases same
  | cons first _ ih =>
    cases h' with
    | nil => cases same
    | cons first' others =>
      refine ((first.apart first').append fun _ => ih others (Nat.succ.inj same)).imp ?_
      rintro ⟨rfl, rfl⟩
      rfl

/-! ## Signatures -/

lemma MethodSig.Spelled.of_prefix {sig : MethodSig} (h : sig.Spelled table s)
    (goes : table.rows <+: later.rows) : sig.Spelled later s := by
  cases h with
  | intro counted ret params => exact .intro counted (ret.of_prefix goes) (params.of_prefix goes)

lemma MethodSig.Spelled.apart {sig sig' : MethodSig} (h : sig.Spelled table s)
    (h' : sig'.Spelled table s') : Apart s s' (sig = sig') := by
  obtain ⟨hasThis, ret, params⟩ := sig
  obtain ⟨hasThis', ret', params'⟩ := sig'
  cases h with
  | intro counted returned taken =>
    cases h' with
    | intro counted' returned' taken' =>
      have counts := Reader.apart_compressed (Reader.compressed_of_count counted)
        (Reader.compressed_of_count counted')
      -- The number of parameters comes first, so once it is told there are as many on both sides.
      refine (Apart.cons fun _ => counts.append fun same => (returned.apart returned').append fun _ =>
        taken.apart taken' same).imp ?_
      rintro ⟨mark, _, rfl, rfl⟩
      have receiver : hasThis = hasThis' := by
        cases hasThis <;> cases hasThis' <;> first | rfl | cases mark
      rw [receiver]

end HookWeave

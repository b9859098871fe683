import HookWeave.Proofs.Bytes.Gives
import HookWeave.Proofs.Bytes.Reads

/-!
# Reads that lose nothing

A read spells what it gives if the bytes that it took are those in which its value is written
(`Reader.Spells`), so that the value can be read from no other bytes. The integers of a fixed width are
read like that (`spells_uint32`, `spells_int32`): as many bytes as the width says are just as many as the
number is written in.
-/

namespace HookWeave

/-- Between one position and another lie just these bytes. -/
structure Cursor.Took (c : Cursor) (bytes : Bytes) (c' : Cursor) : Prop where
  rest : c.rest = bytes ++ c'.rest
  pos : c'.pos = c.pos + bytes.length

namespace Cursor.Took

variable {c c₁ c' : Cursor} {s t bytes : Bytes}

lemma nil (c : Cursor) : c.Took [] c :=
  ⟨rfl, rfl⟩

lemma trans (h : c.Took s c₁) (h' : c₁.Took t c') : c.Took (s ++ t) c' := by
  refine ⟨?_, ?_⟩
  · rw [h.rest, h'.rest, List.append_assoc]
  · rw [h'.pos, h.pos, List.length_append, Nat.add_assoc]

/-- The bytes that were left over are as many as were taken and as are left over then. -/
lemma length_rest (h : c.Took bytes c') : c.rest.length = bytes.length + c'.rest.length := by
  rw [h.rest, List.length_append]

end Cursor.Took

/-- Bytes are those in which the number that they make up is written. -/
lemma littleEndian_ofLittleEndian (bytes : Bytes) :
    littleEndian bytes.length (ofLittleEndian bytes) = bytes := by
  induction bytes with
  | nil => rfl
  | cons b bytes ih =>
    have b_lt := b.toNat_lt
    have low : (b.toNat + 256 * ofLittleEndian bytes) % 256 = b.toNat := by omega
    have high : (b.toNat + 256 * ofLittleEndian bytes) / 256 = ofLittleEndian bytes := by omega
    rw [List.length_cons, ofLittleEndian, littleEndian, low, high, ih, UInt8.ofNat_toNat]

namespace Reader

variable {α β : Type} {r : Reader α} {write : α → Bytes}

/-- The bytes that the read takes are those in which its value is written. -/
def Spells (r : Reader α) (write : α → Bytes) : Prop :=
  ∀ c a c', r c = .ok a c' → c.Took (write a) c'

/-- A value that is computed from another is written as that one is. -/
lemma Spells.map {g : α → β} {write' : β → Bytes} {P : α → Prop} (hr : r.Spells write)
    (gives : r.Gives P) (same : ∀ a, P a → write' (g a) = write a) : (g <$> r).Spells write' := by
  intro c b c' read
  have read : EStateM.map g r c = .ok b c' := read
  rw [EStateM.map] at read
  cases first : r c with
  | ok a c₁ =>
    rw [first] at read
    cases read
    rw [same a (gives c a c' first)]
    exact hr c a c' first
  | error e c₁ =>
    rw [first] at read
    cases read

lemma spells_uint8 : uint8.Spells fun b => [b] := by
  intro c b c' read
  obtain ⟨pos, rest⟩ := c
  cases rest with
  | nil => cases read
  | cons b rest =>
    cases read
    exact ⟨rfl, rfl⟩

lemma spells_take (n : Nat) : (take n).Spells id := by
  intro c bytes c' read
  unfold take at read
  split at read
  · next split =>
    cases read
    obtain ⟨length, whole⟩ := of_splitExact?_eq_some split
    exact ⟨whole, congrArg (c.pos + ·) length.symm⟩
  · cases read

lemma spells_unsigned (w : Nat) : (unsigned w).Spells (littleEndian w) := by
  refine (spells_take w).map (gives_take w) fun bytes length => ?_
  rw [← length]
  exact littleEndian_ofLittleEndian bytes

/-- An unsigned integer fits its width. -/
lemma gives_unsigned (w : Nat) : (unsigned w).Gives (· < 256 ^ w) := by
  refine (gives_take w).map fun bytes length => ?_
  rw [← littleEndian_ofLittleEndian bytes, length, ofLittleEndian_littleEndian]
  exact Nat.mod_lt _ (Nat.pow_pos (by decide))

lemma spells_uint16 : uint16.Spells Encoding.uint16 := by
  refine (spells_unsigned 2).map (gives_unsigned 2) fun n fits => ?_
  rw [Encoding.uint16, UInt16.toNat_ofNat_of_lt' fits]

lemma spells_uint32 : uint32.Spells Encoding.uint32 := by
  refine (spells_unsigned 4).map (gives_unsigned 4) fun n fits => ?_
  rw [Encoding.uint32, UInt32.toNat_ofNat_of_lt' fits]

lemma spells_uint64 : uint64.Spells Encoding.uint64 := by
  refine (spells_unsigned 8).map (gives_unsigned 8) fun n fits => ?_
  rw [Encoding.uint64, UInt64.toNat_ofNat_of_lt' fits]

lemma spells_int8 : int8.Spells Encoding.int8 :=
  spells_uint8.map (gives_anything _) fun _ _ => rfl

lemma spells_int32 : int32.Spells Encoding.int32 :=
  spells_uint32.map (gives_anything _) fun _ _ => rfl

lemma spells_int64 : int64.Spells Encoding.int64 :=
  spells_uint64.map (gives_anything _) fun _ _ => rfl

end Reader
end HookWeave

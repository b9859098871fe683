import HookWeave.Bytes.Encoding
import HookWeave.Proofs.Text.Utf8
import Mathlib.Algebra.Ring.Nat

/-!
# Reads of known bytes

`Reader.ReadsAt r pos bytes a` says that the read `r`, started at offset `pos`, takes exactly
`bytes` off the front of the data and gives `a`, whatever follows; `Reader.Reads` says so of every
offset. Reads compose along `>>=` (`ReadsAt.bind`), so the round trip of a format is put together
from the round trips of its parts: the integers (`reads_uint32`), the compressed integers
(`reads_compressed`), what a count announces (`readsAt_count_bind`) and strings (`reads_string`).
-/

namespace HookWeave
namespace Reader

variable {α β : Type} {r : Reader α} {f : α → Reader β} {a : α} {b : β}
  {pos : Nat} {s t bytes : Bytes}

/-- From `pos` on the read takes exactly these bytes, whatever follows, and gives `a`. -/
def ReadsAt (r : Reader α) (pos : Nat) (bytes : Bytes) (a : α) : Prop :=
  ∀ rest, r ⟨pos, bytes ++ rest⟩ = .ok a ⟨pos + bytes.length, rest⟩

/-- The read takes exactly these bytes at every offset. -/
def Reads (r : Reader α) (bytes : Bytes) (a : α) : Prop :=
  ∀ pos, r.ReadsAt pos bytes a

/-! ## Composition -/

/-- A bind runs its second read where the first one stopped. -/
lemma bind_apply (r : Reader α) (f : α → Reader β) (c : Cursor) :
    (r >>= f) c = match r c with
      | .ok a c => f a c
      | .error e c => .error e c := by
  show EStateM.bind r f c = _
  unfold EStateM.bind
  cases r c <;> rfl

lemma get_bind (f : Cursor → Reader β) (c : Cursor) : (get >>= f : Reader β) c = f c c :=
  rfl

/-- Where there are bytes, there is more to read. -/
lemma hasMore_append (some : s ≠ []) : Cursor.hasMore ⟨pos, s ++ t⟩ = true := by
  cases s with
  | nil => exact absurd rfl some
  | cons b s => rfl

/-- A value alone takes no bytes. -/
lemma ReadsAt.pure : (Pure.pure a : Reader α).ReadsAt pos [] a := by
  intro rest
  rfl

/-- Two reads one after another take the bytes of both. -/
lemma ReadsAt.bind (hr : r.ReadsAt pos s a) (hf : (f a).ReadsAt (pos + s.length) t b) :
    (r >>= f).ReadsAt pos (s ++ t) b := by
  intro rest
  rw [bind_apply, List.append_assoc, hr]
  simp only
  rw [hf, List.length_append, Nat.add_assoc]

/-- A read that is followed by one that takes no bytes. -/
lemma ReadsAt.bind_nil (hr : r.ReadsAt pos s a) (hf : (f a).ReadsAt (pos + s.length) [] b) :
    (r >>= f).ReadsAt pos s b := by
  have h := hr.bind hf
  rw [List.append_nil] at h
  exact h

/-- A read that is followed by a computation on its result. -/
lemma ReadsAt.map (g : α → β) (hr : r.ReadsAt pos bytes a) :
    (g <$> r).ReadsAt pos bytes (g a) := by
  intro rest
  have h := hr rest
  show EStateM.map g r _ = _
  rw [EStateM.map, h]

/-- From `pos` on the read takes these bytes, which are all that is left, and gives `a`. -/
def ReadsAll (r : Reader α) (pos : Nat) (bytes : Bytes) (a : α) : Prop :=
  r ⟨pos, bytes⟩ = .ok a ⟨pos + bytes.length, []⟩

/-- A read of the first bytes is followed by one of all the others. -/
lemma ReadsAt.bind_all (hr : r.ReadsAt pos s a) (hf : (f a).ReadsAll (pos + s.length) t b) :
    (r >>= f).ReadsAll pos (s ++ t) b := by
  rw [ReadsAll, bind_apply, hr t]
  simp only
  rw [hf, List.length_append, Nat.add_assoc]

/-- The value of all bytes. -/
lemma ReadsAll.value (hr : r.ReadsAll 0 bytes a) : r.value bytes = .ok a := by
  rw [Reader.value, EStateM.run, Cursor.start, hr]

/-- The bytes of a read determine its value. -/
lemma ReadsAt.unique {a' : α} (h : r.ReadsAt pos bytes a) (h' : r.ReadsAt pos bytes a') : a = a' := by
  have e := (h []).symm.trans (h' [])
  cases e
  rfl

/-- A value alone takes no bytes, at any offset. -/
lemma Reads.pure : (Pure.pure a : Reader α).Reads [] a :=
  fun _ => ReadsAt.pure

/-- Two reads one after another take the bytes of both, at any offset. -/
lemma Reads.bind (hr : r.Reads s a) (hf : (f a).Reads t b) :
    (r >>= f).Reads (s ++ t) b :=
  fun pos => (hr pos).bind (hf _)

/-- A read that is followed by one that takes no bytes, at any offset. -/
lemma Reads.bind_nil (hr : r.Reads bytes a) (hf : (f a).Reads [] b) : (r >>= f).Reads bytes b :=
  fun pos => (hr pos).bind_nil (hf _)

/-- The last read of a sequence, whose result is the result of all. -/
lemma Reads.bind_pure {g : α → β} (hr : r.Reads bytes a) :
    (r >>= fun a => Pure.pure (g a)).Reads bytes (g a) :=
  fun pos => (hr pos).bind_nil ReadsAt.pure

/-- A read that is followed by a computation on its result, at any offset. -/
lemma Reads.map (g : α → β) (hr : r.Reads bytes a) : (g <$> r).Reads bytes (g a) :=
  fun pos => (hr pos).map g

/-- The position takes no bytes. -/
lemma readsAt_position : position.ReadsAt pos [] pos := by
  intro rest
  rfl

/-! ## Runs of bytes and integers of a fixed width -/

/-- As many bytes as there are in front are split off whole. -/
lemma splitExact?_append (s t : Bytes) :
    splitExact? s.length (s ++ t) = some (s, t) := by
  induction s with
  | nil => rfl
  | cons b s ih =>
    simp only [List.length_cons, List.cons_append, splitExact?, ih, Option.map_some]

/-- A run of bytes reads as itself. -/
lemma reads_take (bytes : Bytes) : (take bytes.length).Reads bytes bytes := by
  intro pos rest
  simp only [take, splitExact?_append]

/-- A byte reads as itself. -/
lemma reads_uint8 (b : UInt8) : uint8.Reads [b] b := by
  intro pos rest
  rfl

/-- A number is written in as many bytes as its width says. -/
@[simp]
lemma length_littleEndian (w n : Nat) : (littleEndian w n).length = w := by
  induction w generalizing n with
  | zero => rfl
  | succ w ih => simp only [littleEndian, List.length_cons, ih]

/-- Bytes read as a number what was written, up to the bits that the width drops. -/
lemma ofLittleEndian_littleEndian (w n : Nat) :
    ofLittleEndian (littleEndian w n) = n % 256 ^ w := by
  induction w generalizing n with
  | zero => simp only [littleEndian, ofLittleEndian, Nat.pow_zero, Nat.mod_one]
  | succ w ih =>
    have byte : (UInt8.ofNat (n % 256)).toNat = n % 256 := by
      rw [UInt8.toNat_ofNat', Nat.mod_mod]
    rw [littleEndian, ofLittleEndian, ih, byte, Nat.pow_succ', Nat.mod_mul]

/-- An unsigned integer reads back if the width holds it. -/
lemma reads_unsigned {w n : Nat} (h : n < 256 ^ w) :
    (unsigned w).Reads (littleEndian w n) n := by
  have read := (reads_take (littleEndian w n)).map ofLittleEndian
  rw [length_littleEndian, ofLittleEndian_littleEndian, Nat.mod_eq_of_lt h] at read
  exact read

/-- A 16-bit unsigned integer reads back. -/
lemma reads_uint16 (v : UInt16) : uint16.Reads (Encoding.uint16 v) v := by
  have read := (reads_unsigned (w := 2) v.toNat_lt).map UInt16.ofNat
  rw [UInt16.ofNat_toNat] at read
  exact read

/-- A 32-bit unsigned integer reads back. -/
lemma reads_uint32 (v : UInt32) : uint32.Reads (Encoding.uint32 v) v := by
  have read := (reads_unsigned (w := 4) v.toNat_lt).map UInt32.ofNat
  rw [UInt32.ofNat_toNat] at read
  exact read

/-- A 64-bit unsigned integer reads back. -/
lemma reads_uint64 (v : UInt64) : uint64.Reads (Encoding.uint64 v) v := by
  have read := (reads_unsigned (w := 8) v.toNat_lt).map UInt64.ofNat
  rw [UInt64.ofNat_toNat] at read
  exact read

/-- An 8-bit signed integer reads back. -/
lemma reads_int8 (v : Int8) : int8.Reads (Encoding.int8 v) v := by
  have read := (reads_uint8 v.toUInt8).map UInt8.toInt8
  rw [Int8.toInt8_toUInt8] at read
  exact read

/-- A 32-bit signed integer reads back. -/
lemma reads_int32 (v : Int32) : int32.Reads (Encoding.int32 v) v := by
  have read := (reads_uint32 v.toUInt32).map UInt32.toInt32
  rw [Int32.toInt32_toUInt32] at read
  exact read

/-- A 64-bit signed integer reads back. -/
lemma reads_int64 (v : Int64) : int64.Reads (Encoding.int64 v) v := by
  have read := (reads_uint64 v.toUInt64).map UInt64.toInt64
  rw [Int64.toInt64_toUInt64] at read
  exact read

/-! ## Compressed integers and counts -/

/-- A compressed integer reads back. -/
lemma reads_compressed {n : Nat} {bytes : Bytes} (h : Encoding.compressed n = .ok bytes) :
    compressed.Reads bytes n := by
  unfold Encoding.compressed at h
  split at h
  case isTrue small =>
    cases h
    have lead := Text.toNat_byte (n := n) (by omega)
    refine (reads_uint8 _).bind_nil ?_
    simp only [lead, if_pos small]
    exact Reads.pure
  case isFalse notSmall =>
    split at h
    case isTrue medium =>
      cases h
      have lead := Text.toNat_byte (n := 0x80 + n / 256) (by omega)
      have low := Text.toNat_byte (n := n % 256) (by omega)
      refine Reads.bind (t := [_]) (reads_uint8 _) ?_
      simp only [lead]
      rw [if_neg (by omega), if_pos (by omega)]
      have value : (0x80 + n / 256) % 64 * 256 + n % 256 = n := by omega
      have read := (reads_uint8 (UInt8.ofNat (n % 256))).bind_pure
        (g := fun b => (0x80 + n / 256) % 64 * 256 + b.toNat)
      rw [low, value] at read
      exact read
    case isFalse notMedium =>
      split at h
      case isTrue large =>
        cases h
        have large : n ≤ 0x1FFFFFFF := large
        have lead := Text.toNat_byte (n := (0xC0000000 + n) / 256 / 256 / 256 % 256) (by omega)
        have high := Text.toNat_byte (n := (0xC0000000 + n) / 256 / 256 % 256) (by omega)
        have middle := Text.toNat_byte (n := (0xC0000000 + n) / 256 % 256) (by omega)
        have low := Text.toNat_byte (n := (0xC0000000 + n) % 256) (by omega)
        refine Reads.bind (t := [_, _, _]) (reads_uint8 _) ?_
        simp only [lead]
        rw [if_neg (by omega), if_neg (by omega), if_pos (by omega)]
        refine Reads.bind (t := [_, _]) (reads_uint8 _) ?_
        refine Reads.bind (t := [_]) (reads_uint8 _) ?_
        rw [high, middle]
        refine (reads_uint8 _).bind_nil ?_
        rw [low]
        have value : (((0xC0000000 + n) / 256 / 256 / 256 % 256 % 32 * 256
            + (0xC0000000 + n) / 256 / 256 % 256) * 256 + (0xC0000000 + n) / 256 % 256) * 256
            + (0xC0000000 + n) % 256 = n := by omega
        rw [value]
        exact Reads.pure
      case isFalse => cases h

/-- What a compressed integer is written in is not empty. -/
lemma compressed_ne_nil {n : Nat} {bytes : Bytes} (h : Encoding.compressed n = .ok bytes) :
    bytes ≠ [] := by
  unfold Encoding.compressed at h
  split at h
  · cases h
    exact List.cons_ne_nil _ _
  · split at h
    · cases h
      exact List.cons_ne_nil _ _
    · split at h
      · cases h
        exact List.ne_nil_of_length_pos (by simp)
      · cases h

/-- A written count is the compressed form of the number. -/
lemma compressed_of_count {n : Nat} {bytes : Bytes} (h : Encoding.count n = .ok bytes) :
    Encoding.compressed n = .ok bytes := by
  unfold Encoding.count at h
  split at h
  · exact h
  · cases h

/-- A count reads back where as many bytes follow as it announces elements. -/
lemma count_apply {n : Nat} (h : Encoding.count n = .ok s) (enough : n ≤ t.length) :
    count ⟨pos, s ++ t⟩ = .ok n ⟨pos + s.length, t⟩ := by
  unfold count
  rw [bind_apply, reads_compressed (compressed_of_count h) pos t]
  have fits : ¬ (Cursor.mk (pos + s.length) t).remaining < n := Nat.not_lt_of_le enough
  show (if _ then _ else _ : Reader Nat) _ = _
  rw [if_neg fits]
  rfl

/-- A count reads back in front of the elements that it announces, each of a byte or more. -/
lemma readsAt_count_bind {n : Nat} {f : Nat → Reader β} (h : Encoding.count n = .ok s)
    (enough : n ≤ t.length) (hf : (f n).ReadsAt (pos + s.length) t b) :
    (count >>= f).ReadsAt pos (s ++ t) b := by
  intro rest
  have enough : n ≤ (t ++ rest).length := by
    rw [List.length_append]
    omega
  rw [bind_apply, List.append_assoc, count_apply h enough]
  simp only
  rw [hf, List.length_append, Nat.add_assoc]

/-- A row reads back as its index. -/
lemma reads_row {n : Nat} {bytes : Bytes} (h : Encoding.compressed (n + 1) = .ok bytes) :
    row.Reads bytes (some n) :=
  (reads_compressed h).bind_nil Reads.pure

/-- The row of nothing reads back as nothing. -/
lemma reads_row_zero {bytes : Bytes} (h : Encoding.compressed 0 = .ok bytes) :
    row.Reads bytes none :=
  (reads_compressed h).bind_nil Reads.pure

/-! ## Groups of seven bits -/

/-- An integer in groups of seven bits reads back if there are groups enough for it. -/
lemma reads_groups {k n : Nat} (done : Nat) (h : n < 128 ^ (k + 1)) :
    (groups (k + 1) done).Reads (Encoding.sevenBit n) n := by
  induction k generalizing n done with
  | zero =>
    have small : n < 0x80 := h
    have byte := Text.toNat_byte (n := n) (by omega)
    rw [Encoding.sevenBit, if_pos small]
    refine (reads_uint8 _).bind_nil ?_
    simp only [byte, if_pos small]
    exact Reads.pure
  | succ k ih =>
    rw [Encoding.sevenBit]
    by_cases small : n < 0x80
    · have byte := Text.toNat_byte (n := n) (by omega)
      rw [if_pos small]
      refine (reads_uint8 _).bind_nil ?_
      simp only [byte, if_pos small]
      exact Reads.pure
    · have byte := Text.toNat_byte (n := 0x80 + n % 128) (by omega)
      rw [if_neg small]
      refine Reads.bind (s := [_]) (reads_uint8 _) ?_
      simp only [byte]
      rw [if_neg (by omega)]
      have high : n / 128 < 128 ^ (k + 1) :=
        Nat.div_lt_of_lt_mul (by rw [Nat.mul_comm]; exact h)
      have read := (ih (done + 1) high).bind_pure (g := fun m => (0x80 + n % 128) % 128 + 128 * m)
      have value : (0x80 + n % 128) % 128 + 128 * (n / 128) = n := by omega
      rw [value] at read
      exact read

/-- A 32-bit integer in groups of seven bits reads back. -/
lemma reads_sevenBit {n : Nat} (h : n < UInt32.size) : sevenBit.Reads (Encoding.sevenBit n) n := by
  have read := (reads_groups (k := 4) 0 (Nat.lt_trans h (by decide))).map (· % UInt32.size)
  rw [Nat.mod_eq_of_lt h] at read
  exact read

/-! ## Strings and repetition -/

/-- A string reads back. -/
lemma reads_string {text : String} {bytes : Bytes} (h : Encoding.string text = .ok bytes) :
    string.Reads bytes text := by
  unfold Encoding.string at h
  simp only at h
  split at h
  case isTrue short =>
    cases h
    intro pos
    refine (reads_sevenBit short pos).bind ?_
    refine ReadsAt.bind (s := []) readsAt_position ?_
    refine (reads_take (Text.utf8 text) _).bind_nil ?_
    rw [Text.ofUtf8_utf8]
    exact ReadsAt.pure
  case isFalse => cases h

/-- What a string is written in is not empty. -/
lemma string_ne_nil {text : String} {bytes : Bytes} (h : Encoding.string text = .ok bytes) :
    bytes ≠ [] := by
  unfold Encoding.string at h
  simp only at h
  split at h
  case isTrue =>
    cases h
    rw [Encoding.sevenBit]
    split <;> exact List.cons_ne_nil _ _
  case isFalse => cases h

/-- No reads take no bytes. -/
lemma reads_times_zero (r : Reader α) : (times r 0).Reads [] [] :=
  Reads.pure

/-- A read more takes its own bytes first. -/
lemma reads_times_succ {n : Nat} {as : List α} (first : r.Reads s a)
    (others : (times r n).Reads t as) : (times r (n + 1)).Reads (s ++ t) (a :: as) := by
  refine first.bind ?_
  exact others.bind_pure

end Reader

/-! ## What can be compressed -/

namespace Encoding

variable {n : Nat} {bytes : Bytes}

lemma compressed_eq_ok (h : n ≤ maxCompressed) : ∃ bytes, compressed n = .ok bytes := by
  unfold compressed
  split
  · exact ⟨_, rfl⟩
  · split
    · exact ⟨_, rfl⟩
    · exact ⟨_, rfl⟩

lemma compressed_of_lt (large : maxCompressed < n) :
    compressed n = .error (.malformed (.compressedTooLarge n)) := by
  have greatest : 0x4000 ≤ maxCompressed := by decide
  rw [compressed, if_neg (by omega), if_neg (by omega), if_neg (Nat.not_le.2 large)]

/-- How many bytes an integer is compressed to. -/
lemma length_compressed (h : compressed n = .ok bytes) :
    bytes.length = if n < 0x80 then 1 else if n < 0x4000 then 2 else 4 := by
  unfold compressed at h
  split_ifs at h ⊢
  · cases h
    rfl
  · cases h
    rfl
  · cases h
    rw [List.length_reverse, Reader.length_littleEndian]

end Encoding
end HookWeave

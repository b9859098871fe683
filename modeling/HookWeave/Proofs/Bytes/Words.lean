import HookWeave.Bytes.Parser
import HookWeave.Bytes.Writer
import Mathlib.Algebra.Group.Nat.Defs

/-!
# Masks and shifts as arithmetic

The parser and the writer take numbers apart and put them together with masks and shifts of words.
Here each of these is the quotient, the remainder or the sum that `Reader` and `Encoding` say: an
`or` is a sum because one side is a multiple of a power of two that the other side stays below
(`toNat_or_of_dvd`).
-/

namespace HookWeave

/-! ## Sums -/

/-- Where one word has only bits from `i` on, and the other only bits below, `or` adds them. -/
lemma toNat_or_of_dvd {a b : UInt32} (i : Nat) (multiple : 2 ^ i ∣ a.toNat)
    (below : b.toNat < 2 ^ i) : (a ||| b).toNat = a.toNat + b.toNat := by
  obtain ⟨n, a_eq⟩ := multiple
  rw [UInt32.toNat_or, a_eq, Nat.two_pow_add_eq_or_of_lt below]

/-- A word that is moved up by less than its width is multiplied; bits beyond the word are
dropped. -/
lemma toNat_shiftLeft_of_lt {a : UInt32} {i : Nat} (within : i < 32) :
    (a <<< UInt32.ofNat i).toNat = a.toNat * 2 ^ i % UInt32.size := by
  have shift : (UInt32.ofNat i).toNat = i := UInt32.toNat_ofNat_of_lt' (Nat.lt_trans within (by decide))
  rw [UInt32.toNat_shiftLeft, shift, Nat.mod_eq_of_lt within, Nat.shiftLeft_eq]

/-- The lowest bits of a byte are its remainder. -/
lemma toNat_and_mask {b : UInt8} {mask : UInt32} (i : Nat) (mask_eq : mask.toNat = 2 ^ i - 1) :
    (b.toUInt32 &&& mask).toNat = b.toNat % 2 ^ i := by
  rw [UInt32.toNat_and, UInt8.toNat_toUInt32, mask_eq, Nat.and_two_pow_sub_one_eq_mod]

/-! ## Taking apart -/

/-- The lead of an integer of one byte. -/
lemma lead_one (b : UInt8) : b &&& 0x80 = 0 ↔ b.toNat < 0x80 := by
  have all : ∀ n : Fin 256, UInt8.ofNat n &&& 0x80 = 0 ↔ n.val < 0x80 := by
    decide +kernel
  have of := all ⟨b.toNat, b.toNat_lt⟩
  rwa [UInt8.ofNat_toNat] at of

/-- The lead of an integer of two bytes. -/
lemma lead_two (b : UInt8) : b &&& 0xC0 = 0x80 ↔ 0x80 ≤ b.toNat ∧ b.toNat < 0xC0 := by
  have all : ∀ n : Fin 256, UInt8.ofNat n &&& 0xC0 = 0x80 ↔ 0x80 ≤ n.val ∧ n.val < 0xC0 := by
    decide +kernel
  have of := all ⟨b.toNat, b.toNat_lt⟩
  rwa [UInt8.ofNat_toNat] at of

/-- The lead of an integer of four bytes. -/
lemma lead_four (b : UInt8) : b &&& 0xE0 = 0xC0 ↔ 0xC0 ≤ b.toNat ∧ b.toNat < 0xE0 := by
  have all : ∀ n : Fin 256, UInt8.ofNat n &&& 0xE0 = 0xC0 ↔ 0xC0 ≤ n.val ∧ n.val < 0xE0 := by
    decide +kernel
  have of := all ⟨b.toNat, b.toNat_lt⟩
  rwa [UInt8.ofNat_toNat] at of

/-! ## Putting together -/

/-- The lowest bits of a byte, moved up within the word. -/
lemma toNat_lead_shiftLeft (lead : UInt8) {mask : UInt32} {k i : Nat}
    (mask_eq : mask.toNat = 2 ^ k - 1) (within : k + i ≤ 32) (moved : i < 32) :
    ((lead.toUInt32 &&& mask) <<< UInt32.ofNat i).toNat = lead.toNat % 2 ^ k * 2 ^ i := by
  have fits : lead.toNat % 2 ^ k * 2 ^ i < UInt32.size :=
    calc lead.toNat % 2 ^ k * 2 ^ i
      _ < 2 ^ k * 2 ^ i :=
        Nat.mul_lt_mul_of_pos_right (Nat.mod_lt _ (Nat.two_pow_pos k)) (Nat.two_pow_pos i)
      _ = 2 ^ (k + i) := (Nat.pow_add 2 k i).symm
      _ ≤ 2 ^ 32 := Nat.pow_le_pow_right (by decide) within
  rw [toNat_shiftLeft_of_lt moved, toNat_and_mask k mask_eq, Nat.mod_eq_of_lt fits]

/-- The last byte is added to a word that leaves room for it. -/
lemma toNat_or_byte {a : UInt32} (b : UInt8) (room : 2 ^ 8 ∣ a.toNat) :
    (a ||| b.toUInt32).toNat = a.toNat + b.toNat := by
  rw [toNat_or_of_dvd 8 room (by rw [UInt8.toNat_toUInt32]; exact b.toNat_lt),
    UInt8.toNat_toUInt32]

/-- A byte that is moved up is added to a word that leaves room for it. -/
lemma toNat_or_byte_shiftLeft {a : UInt32} (b : UInt8) {i : Nat} (within : 8 + i ≤ 32)
    (room : 2 ^ (8 + i) ∣ a.toNat) :
    (a ||| b.toUInt32 <<< UInt32.ofNat i).toNat = a.toNat + b.toNat * 2 ^ i := by
  have below : b.toNat * 2 ^ i < 2 ^ (8 + i) := by
    rw [Nat.pow_add]
    exact Nat.mul_lt_mul_of_pos_right b.toNat_lt (Nat.two_pow_pos i)
  have fits : b.toNat * 2 ^ i < UInt32.size :=
    Nat.lt_of_lt_of_le below (Nat.pow_le_pow_right (by decide) within)
  have byte : (b.toUInt32 <<< UInt32.ofNat i).toNat = b.toNat * 2 ^ i := by
    rw [toNat_shiftLeft_of_lt (by omega), UInt8.toNat_toUInt32, Nat.mod_eq_of_lt fits]
  rw [toNat_or_of_dvd (8 + i) room (byte ▸ below), byte]

/-- The value of two bytes. -/
lemma toNat_two_bytes (lead low : UInt8) :
    ((lead.toUInt32 &&& 0x3F) <<< 8 ||| low.toUInt32).toNat =
      lead.toNat % 64 * 256 + low.toNat := by
  have first : ((lead.toUInt32 &&& 0x3F) <<< 8).toNat = lead.toNat % 64 * 256 :=
    toNat_lead_shiftLeft lead (k := 6) (i := 8) rfl (by decide) (by decide)
  rw [toNat_or_byte low (by omega), first]

/-- The value of four bytes. -/
lemma toNat_four_bytes (lead high middle low : UInt8) :
    ((lead.toUInt32 &&& 0x1F) <<< 24 ||| high.toUInt32 <<< 16 ||| middle.toUInt32 <<< 8
      ||| low.toUInt32).toNat =
      ((lead.toNat % 32 * 256 + high.toNat) * 256 + middle.toNat) * 256 + low.toNat := by
  have first : ((lead.toUInt32 &&& 0x1F) <<< 24).toNat = lead.toNat % 32 * 16777216 :=
    toNat_lead_shiftLeft lead (k := 5) (i := 24) rfl (by decide) (by decide)
  have second : ((lead.toUInt32 &&& 0x1F) <<< 24 ||| high.toUInt32 <<< 16).toNat =
      lead.toNat % 32 * 16777216 + high.toNat * 65536 :=
    (toNat_or_byte_shiftLeft high (i := 16) (by decide) (by omega)).trans
      (congrArg (· + high.toNat * 65536) first)
  have third : ((lead.toUInt32 &&& 0x1F) <<< 24 ||| high.toUInt32 <<< 16
      ||| middle.toUInt32 <<< 8).toNat =
      lead.toNat % 32 * 16777216 + high.toNat * 65536 + middle.toNat * 256 :=
    (toNat_or_byte_shiftLeft middle (i := 8) (by decide) (by omega)).trans
      (congrArg (· + middle.toNat * 256) second)
  rw [toNat_or_byte low (by omega), third]
  omega

/-- A group of seven bits is added above the bits that are there; what exceeds the word is
dropped. -/
lemma toNat_or_group {value : UInt32} (b : UInt8) {shift : Nat} (below : value.toNat < 2 ^ shift)
    (within : shift < 32) :
    (value ||| (b &&& 0x7F).toUInt32 <<< UInt32.ofNat shift).toNat =
      (value.toNat + 2 ^ shift * (b.toNat % 128)) % UInt32.size := by
  have seven : (b &&& 0x7F).toNat = b.toNat % 128 := by
    rw [UInt8.toNat_and]
    exact Nat.and_two_pow_sub_one_eq_mod _ 7
  have size : UInt32.size = 2 ^ shift * 2 ^ (32 - shift) := by
    rw [← Nat.pow_add, Nat.add_sub_cancel' (Nat.le_of_lt within)]
  have group : ((b &&& 0x7F).toUInt32 <<< UInt32.ofNat shift).toNat =
      2 ^ shift * (b.toNat % 128 % 2 ^ (32 - shift)) := by
    rw [toNat_shiftLeft_of_lt within, UInt8.toNat_toUInt32, seven, Nat.mul_comm, size,
      Nat.mul_mod_mul_left]
  rw [UInt32.or_comm, toNat_or_of_dvd shift (group ▸ Nat.dvd_mul_right _ _) below, group, size,
    Nat.mod_mul, Nat.add_mul_mod_self_left, Nat.mod_eq_of_lt below,
    Nat.add_mul_div_left _ _ (Nat.two_pow_pos shift), Nat.div_eq_of_lt below, Nat.zero_add,
    Nat.add_comm]

/-! ## Bytes of words -/

/-- A byte with its high bit set. -/
lemma or_high (b : UInt8) : b ||| 0x80 = UInt8.ofNat (0x80 + b.toNat % 128) := by
  have all : ∀ n : Fin 256, UInt8.ofNat n ||| 0x80 = UInt8.ofNat (0x80 + n.val % 128) := by
    decide +kernel
  have of := all ⟨b.toNat, b.toNat_lt⟩
  rwa [UInt8.ofNat_toNat] at of

/-- A byte further up in a word. -/
lemma toUInt8_shiftRight (v : UInt32) {i : Nat} (within : i < 32) :
    (v >>> UInt32.ofNat i).toUInt8 = UInt8.ofNat (v.toNat / 2 ^ i % 256) := by
  have shift : (UInt32.ofNat i).toNat = i :=
    UInt32.toNat_ofNat_of_lt' (Nat.lt_trans within (by decide))
  apply UInt8.toNat_inj.mp
  rw [UInt32.toNat_toUInt8, UInt32.toNat_shiftRight, shift, Nat.mod_eq_of_lt within,
    Nat.shiftRight_eq_div_pow, UInt8.toNat_ofNat', Nat.mod_mod]

/-- The lowest byte of a word. -/
lemma toUInt8_eq (v : UInt32) : v.toUInt8 = UInt8.ofNat (v.toNat % 256) := by
  apply UInt8.toNat_inj.mp
  rw [UInt32.toNat_toUInt8, UInt8.toNat_ofNat', Nat.mod_mod]

/-- The bytes of a word, highest first. -/
lemma bigEndian_eq (v : UInt32) : Writer.bigEndian v = (littleEndian 4 v.toNat).reverse := by
  have first : (v >>> UInt32.ofNat 24).toUInt8 = UInt8.ofNat (v.toNat / (256 * 256 * 256) % 256) :=
    toUInt8_shiftRight v (by decide)
  have second : (v >>> UInt32.ofNat 16).toUInt8 = UInt8.ofNat (v.toNat / (256 * 256) % 256) :=
    toUInt8_shiftRight v (by decide)
  have third : (v >>> UInt32.ofNat 8).toUInt8 = UInt8.ofNat (v.toNat / 256 % 256) :=
    toUInt8_shiftRight v (by decide)
  simp only [littleEndian, Nat.div_div_eq_div_mul, List.reverse_cons, List.reverse_nil,
    List.nil_append, List.cons_append]
  show [(v >>> UInt32.ofNat 24).toUInt8, (v >>> UInt32.ofNat 16).toUInt8,
    (v >>> UInt32.ofNat 8).toUInt8, v.toUInt8] = _
  rw [first, second, third, toUInt8_eq]

end HookWeave

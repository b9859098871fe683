import HookWeave.Text.Utf8
import Mathlib.Tactic.Lemma
import Mathlib.Tactic.SplitIfs

/-!
# Strings survive UTF-8

What `utf8` writes `ofUtf8` reads back (`ofUtf8_utf8`). The reader is followed character by
character: `readChars_append` has one case for each number of bytes that a character takes. In each
the lead byte settles what may follow (`following?_two`, `following?_three`, `following?_four`), and
the ranges there admit the second byte because the character is neither overlong nor a surrogate.
The other way round, a string takes no more bytes than it was read from (`length_utf8_le`).
-/

namespace HookWeave.Text

variable {lead : UInt8} {c : Char}

/-- What may follow a lead byte, in terms of its number. -/
lemma following?_eq (lead : UInt8) :
    following? lead =
      if lead.toNat < 0xC2 then none
      else if lead.toNat < 0xE0 then some (1, 0x80, 0xBF)
      else if lead.toNat = 0xE0 then some (2, 0xA0, 0xBF)
      else if lead.toNat = 0xED then some (2, 0x80, 0x9F)
      else if lead.toNat < 0xF0 then some (2, 0x80, 0xBF)
      else if lead.toNat = 0xF0 then some (3, 0x90, 0xBF)
      else if lead.toNat < 0xF4 then some (3, 0x80, 0xBF)
      else if lead.toNat = 0xF4 then some (3, 0x80, 0x8F)
      else none := by
  simp only [following?, UInt8.lt_iff_toNat_lt, ← UInt8.toNat_inj, UInt8.reduceToNat]

/-- The lead byte of a sequence of two bytes. -/
lemma following?_two (low : 0xC2 ≤ lead.toNat) (high : lead.toNat < 0xE0) :
    following? lead = some (1, 0x80, 0xBF) := by
  rw [following?_eq, if_neg (by omega), if_pos high]

/-- The lead byte of a sequence of three bytes: the second must not make the form overlong or the
character a surrogate. -/
lemma following?_three (low : 0xE0 ≤ lead.toNat) (high : lead.toNat < 0xF0) :
    following? lead = some (2, if lead.toNat = 0xE0 then 0xA0 else 0x80,
      if lead.toNat = 0xED then 0x9F else 0xBF) := by
  rw [following?_eq, if_neg (by omega), if_neg (by omega)]
  by_cases first : lead.toNat = 0xE0
  · rw [if_pos first, if_pos first, if_neg (by omega)]
  · rw [if_neg first, if_neg first]
    by_cases surrogate : lead.toNat = 0xED
    · rw [if_pos surrogate, if_pos surrogate]
    · rw [if_neg surrogate, if_neg surrogate, if_pos high]

/-- The lead byte of a sequence of four bytes: the second must not make the form overlong or lead
beyond the last code point. -/
lemma following?_four (low : 0xF0 ≤ lead.toNat) (high : lead.toNat < 0xF5) :
    following? lead = some (3, if lead.toNat = 0xF0 then 0x90 else 0x80,
      if lead.toNat = 0xF4 then 0x8F else 0xBF) := by
  rw [following?_eq, if_neg (by omega), if_neg (by omega), if_neg (by omega), if_neg (by omega),
    if_neg (by omega)]
  by_cases first : lead.toNat = 0xF0
  · rw [if_pos first, if_pos first, if_neg (by omega)]
  · rw [if_neg first, if_neg first]
    by_cases last : lead.toNat = 0xF4
    · rw [if_neg (by omega), if_pos last, if_pos last]
    · rw [if_pos (by omega), if_neg last]

/-! ## One character -/

section
variable {index : Nat} {low high second third fourth : UInt8} {rest : List UInt8}

/-- The test by which a byte is refused. -/
lemma refused_iff {b : UInt8} :
    (decide (b < low) || decide (high < b)) = true ↔ b.toNat < low.toNat ∨ high.toNat < b.toNat := by
  simp only [Bool.or_eq_true, decide_eq_true_eq, UInt8.lt_iff_toNat_lt]

/-- A character of one byte. -/
lemma readChars_one (ascii : lead.toNat < 0x80) :
    readChars index (lead :: rest) = (Char.ofNat lead.toNat :: ·) <$> readChars (index + 1) rest := by
  rw [readChars, if_pos (UInt8.lt_iff_toNat_lt.2 ascii)]

/-- A character of two bytes. -/
lemma readChars_two (notAscii : 0x80 ≤ lead.toNat) (next : following? lead = some (1, low, high))
    (h₂ : low.toNat ≤ second.toNat ∧ second.toNat ≤ high.toNat) :
    readChars index (lead :: second :: rest) =
      (Char.ofNat (lead.toNat % 32 * 64 + payload second) :: ·) <$> readChars (index + 2) rest := by
  have h : ¬ lead < 0x80 := fun lt => Nat.not_lt.2 notAscii (UInt8.lt_iff_toNat_lt.1 lt)
  rw [readChars, if_neg h, next]
  simp only
  rw [if_neg (by rw [refused_iff]; omega), if_true]

/-- A character of three bytes. -/
lemma readChars_three (notAscii : 0x80 ≤ lead.toNat) (next : following? lead = some (2, low, high))
    (h₂ : low.toNat ≤ second.toNat ∧ second.toNat ≤ high.toNat)
    (h₃ : 0x80 ≤ third.toNat ∧ third.toNat ≤ 0xBF) :
    readChars index (lead :: second :: third :: rest) =
      (Char.ofNat ((lead.toNat % 16 * 64 + payload second) * 64 + payload third) :: ·)
        <$> readChars (index + 3) rest := by
  have h : ¬ lead < 0x80 := fun lt => Nat.not_lt.2 notAscii (UInt8.lt_iff_toNat_lt.1 lt)
  rw [readChars, if_neg h, next]
  simp only [show ¬ (2 = 1) from by decide, if_false, if_true]
  rw [if_neg (by rw [refused_iff]; omega),
    if_neg (by rw [refused_iff]; simp only [UInt8.reduceToNat]; omega)]

/-- A character of four bytes. -/
lemma readChars_four (notAscii : 0x80 ≤ lead.toNat) (next : following? lead = some (3, low, high))
    (h₂ : low.toNat ≤ second.toNat ∧ second.toNat ≤ high.toNat)
    (h₃ : 0x80 ≤ third.toNat ∧ third.toNat ≤ 0xBF) (h₄ : 0x80 ≤ fourth.toNat ∧ fourth.toNat ≤ 0xBF) :
    readChars index (lead :: second :: third :: fourth :: rest) =
      (Char.ofNat (((lead.toNat % 8 * 64 + payload second) * 64 + payload third) * 64
        + payload fourth) :: ·) <$> readChars (index + 4) rest := by
  have h : ¬ lead < 0x80 := fun lt => Nat.not_lt.2 notAscii (UInt8.lt_iff_toNat_lt.1 lt)
  rw [readChars, if_neg h, next]
  simp only [show ¬ (3 = 1) from by decide, show ¬ (3 = 2) from by decide, if_false]
  rw [if_neg (by rw [refused_iff]; omega),
    if_neg (by rw [refused_iff]; simp only [UInt8.reduceToNat]; omega),
    if_neg (by rw [refused_iff]; simp only [UInt8.reduceToNat]; omega)]

end

/-- The number of a byte that is written as a number. -/
lemma toNat_byte {n : Nat} (h : n < 256) : (UInt8.ofNat n).toNat = n := by
  rw [UInt8.toNat_ofNat', Nat.mod_eq_of_lt h]

/-- A code point is not a surrogate and does not lie beyond the last one. -/
lemma codePoint_valid (c : Char) :
    c.val.toNat < 0xD800 ∨ 0xDFFF < c.val.toNat ∧ c.val.toNat < 0x110000 :=
  c.valid

/-- The bytes of a character read as that character. -/
lemma readChars_append (index : Nat) (c : Char) (rest : List UInt8) :
    ∃ next, readChars index (String.utf8EncodeChar c ++ rest)
      = (c :: ·) <$> readChars next rest := by
  have valid := codePoint_valid c
  have self : Char.ofNat c.val.toNat = c := Char.ofNat_toNat c
  unfold String.utf8EncodeChar
  generalize c.val.toNat = v at valid self
  have last := toNat_byte (n := v % 0x40 + 0x80) (by omega)
  have middle := toNat_byte (n := v / 64 % 0x40 + 0x80) (by omega)
  have upper := toNat_byte (n := v / 4096 % 0x40 + 0x80) (by omega)
  simp only
  by_cases one : v ≤ 0x7F
  · have byte := toNat_byte (n := v) (by omega)
    refine ⟨index + 1, ?_⟩
    rw [if_pos one, List.singleton_append, readChars_one (by omega), byte, self]
  · rw [if_neg one]
    by_cases two : v ≤ 0x7FF
    · have byte := toNat_byte (n := v / 64 % 0x20 + 0xC0) (by omega)
      refine ⟨index + 2, ?_⟩
      rw [if_pos two, List.cons_append, List.singleton_append,
        readChars_two (by omega) (following?_two (by omega) (by omega))
          (by rw [last]; simp only [UInt8.reduceToNat]; omega)]
      have value : (v / 64 % 0x20 + 0xC0) % 32 * 64 + (v % 0x40 + 0x80) % 64 = v := by omega
      rw [payload, byte, last, value, self]
    · rw [if_neg two]
      by_cases three : v ≤ 0xFFFF
      · have byte := toNat_byte (n := v / 4096 % 0x10 + 0xE0) (by omega)
        refine ⟨index + 3, ?_⟩
        rw [if_pos three, List.cons_append, List.cons_append, List.singleton_append,
          readChars_three (by omega) (following?_three (by omega) (by omega))
            (by rw [middle, byte]; split <;> split <;> simp only [UInt8.reduceToNat] <;> omega)
            (by omega)]
        have value : ((v / 4096 % 0x10 + 0xE0) % 16 * 64 + (v / 64 % 0x40 + 0x80) % 64) * 64
            + (v % 0x40 + 0x80) % 64 = v := by omega
        rw [payload, payload, byte, middle, last, value, self]
      · have byte := toNat_byte (n := v / 262144 % 0x08 + 0xF0) (by omega)
        refine ⟨index + 4, ?_⟩
        rw [if_neg three, List.cons_append, List.cons_append, List.cons_append,
          List.singleton_append, readChars_four (by omega) (following?_four (by omega) (by omega))
            (by rw [upper, byte]; split <;> split <;> simp only [UInt8.reduceToNat] <;> omega)
            (by omega) (by omega)]
        have value : (((v / 262144 % 0x08 + 0xF0) % 8 * 64 + (v / 4096 % 0x40 + 0x80) % 64) * 64
            + (v / 64 % 0x40 + 0x80) % 64) * 64 + (v % 0x40 + 0x80) % 64 = v := by omega
        rw [payload, payload, payload, byte, upper, middle, last, value, self]

/-! ## Strings -/

/-- The bytes of characters read as those characters. -/
lemma readChars_flatMap (index : Nat) (cs : List Char) :
    readChars index (cs.flatMap String.utf8EncodeChar) = .ok cs := by
  induction cs generalizing index with
  | nil => rfl
  | cons c cs ih =>
    obtain ⟨next, h⟩ := readChars_append index c (cs.flatMap String.utf8EncodeChar)
    rw [List.flatMap_cons, h, ih]
    rfl

/-- The UTF-8 bytes of a string read as that string. -/
lemma ofUtf8_utf8 (s : String) : ofUtf8 (utf8 s) = .ok s := by
  rw [ofUtf8, utf8, readChars_flatMap]
  show Except.ok (String.ofList s.toList) = _
  rw [String.ofList_toList]

/-! ## Lengths -/

/-- The code point of the character of a number is that number, or 0 if there is no such character. -/
lemma toNat_ofNat_le (n : Nat) : (Char.ofNat n).val.toNat ≤ n := by
  unfold Char.ofNat
  by_cases valid : n.isValidChar
  · rw [dif_pos valid]
    exact Nat.le_refl _
  · rw [dif_neg valid]
    exact Nat.zero_le _

/-- A character takes no more bytes than its code point needs. -/
lemma length_utf8EncodeChar_ofNat (n : Nat) :
    (String.utf8EncodeChar (Char.ofNat n)).length
      ≤ if n < 0x80 then 1 else if n < 0x800 then 2 else if n < 0x10000 then 3 else 4 := by
  have le := toNat_ofNat_le n
  unfold String.utf8EncodeChar
  simp only
  generalize (Char.ofNat n).val.toNat = v at le
  split_ifs
  all_goals simp only [List.length_cons, List.length_nil]
  all_goals omega

/-- A character read in front of others takes as many bytes as are read for it, or fewer. -/
lemma length_flatMap_of_map {n k : Nat} {x : Except Utf8Fault (List Char)} {cs : List Char}
    {rest : List UInt8} (h : (Char.ofNat n :: ·) <$> x = .ok cs)
    (first : (String.utf8EncodeChar (Char.ofNat n)).length ≤ k)
    (others : ∀ cs, x = .ok cs → (cs.flatMap String.utf8EncodeChar).length ≤ rest.length) :
    (cs.flatMap String.utf8EncodeChar).length ≤ rest.length + k := by
  cases x with
  | error e => cases h
  | ok tail =>
    cases h
    have := others tail rfl
    rw [List.flatMap_cons, List.length_append]
    omega

/-- Characters take no more bytes than they are read from. -/
lemma length_le_of_readChars {index : Nat} {bytes : List UInt8} {cs : List Char}
    (h : readChars index bytes = .ok cs) :
    (cs.flatMap String.utf8EncodeChar).length ≤ bytes.length := by
  fun_induction readChars index bytes generalizing cs
  case case1 =>
    cases h
    exact Nat.le_refl _
  case case2 lead rest ascii ih =>
    have small : lead.toNat < 0x80 := UInt8.lt_iff_toNat_lt.1 ascii
    refine length_flatMap_of_map (k := 1) h ?_ fun _ read => ih read
    exact Nat.le_trans (length_utf8EncodeChar_ofNat _) (Nat.le_of_eq (if_pos small))
  case case6 lead _ _ _ second rest _ _ ih =>
    refine length_flatMap_of_map (k := 2) h ?_ fun _ read => ih read
    refine Nat.le_trans (length_utf8EncodeChar_ofNat _) ?_
    unfold payload
    split_ifs <;> omega
  case case9 lead _ _ _ second third rest _ _ _ ih =>
    refine length_flatMap_of_map (k := 3) h ?_ fun _ read => ih read
    refine Nat.le_trans (length_utf8EncodeChar_ofNat _) ?_
    unfold payload
    split_ifs <;> omega
  case case12 ih =>
    refine length_flatMap_of_map (k := 4) h ?_ fun _ read => ih read
    refine Nat.le_trans (length_utf8EncodeChar_ofNat _) ?_
    split_ifs <;> omega
  all_goals cases h

/-- A string takes no more bytes than it was read from. -/
lemma length_utf8_le {bytes : List UInt8} {s : String} (h : ofUtf8 bytes = .ok s) :
    (utf8 s).length ≤ bytes.length := by
  unfold ofUtf8 at h
  cases read : readChars 0 bytes with
  | error e =>
    rw [read] at h
    cases h
  | ok cs =>
    rw [read] at h
    cases h
    rw [utf8, String.toList_ofList]
    exact length_le_of_readChars read

end HookWeave.Text

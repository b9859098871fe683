import HookWeave.Proofs.Bytes.Spells
import HookWeave.Proofs.Outcomes

/-!
# Integers in groups of seven bits

A run of bytes, all but the last with their high bit set, denotes the number that its groups of seven bits
make up (`Denotes`). An integer is read from a run of at most five bytes, whose number is cut down to 32
bits (`sevenBit_eq_ok`); a longer run is refused (`groups_of_overlong`). The number and the integer differ
just where the last of five bytes has bits beyond the word (`Cursor.Overfull`), so that elsewhere no wrong
integer is read (`sevenBit_faithful_iff`) and strings are as long as is announced (`string_of_faithful`).
-/

namespace HookWeave

/-- A run of groups of seven bits, lowest first, and the number that they make up. -/
inductive Denotes : Bytes → Nat → Prop
  | last {b : UInt8} :
    b.toNat < 0x80 →
    Denotes [b] b.toNat
  | more {b : UInt8} {bytes : Bytes} {n : Nat} :
    ¬ b.toNat < 0x80 →
    Denotes bytes n →
    Denotes (b :: bytes) (b.toNat % 128 + 128 * n)

/-- At the cursor stands a run of five bytes, and the last holds more than the four bits that are left of
the word. -/
def Cursor.Overfull (c : Cursor) : Prop :=
  ∃ front last rest, c.rest = front ++ last :: rest ∧ front.length = 4
    ∧ (∀ b ∈ front, ¬ b.toNat < 0x80) ∧ last.toNat < 0x80 ∧ 0x10 ≤ last.toNat

variable {bytes bytes' : Bytes} {n n' v left done : Nat} {c c' : Cursor}

/-- What was taken was taken one part after another. -/
lemma Cursor.Took.uncons {b : UInt8} (h : c.Took (b :: bytes) c') :
    ∃ c₁, c.Took [b] c₁ ∧ c₁.Took bytes c' := by
  refine ⟨⟨c.pos + 1, bytes ++ c'.rest⟩, ⟨h.rest, rfl⟩, rfl, ?_⟩
  rw [h.pos, List.length_cons, Nat.add_assoc, Nat.add_comm 1]

/-! ## Runs -/

/-- The groups above the lowest one. -/
lemma div_of_group (low n k : Nat) : (low % 128 + 128 * n) / 128 ^ (k + 1) = n / 128 ^ k := by
  have shifted : (low % 128 + 128 * n) / 128 = n := by omega
  rw [Nat.pow_succ', ← Nat.div_div_eq_div_mul, shifted]

/-- A run consists of bytes with their high bit set and one without, which holds what lies above the
groups of the others. -/
lemma Denotes.split (h : Denotes bytes n) : ∃ front last, bytes = front ++ [last]
    ∧ (∀ b ∈ front, ¬ b.toNat < 0x80) ∧ last.toNat < 0x80 ∧ n / 128 ^ front.length = last.toNat := by
  induction h with
  | @last b small => exact ⟨[], b, rfl, List.forall_mem_nil _, small, Nat.div_one _⟩
  | @more b bytes n large _ ih =>
    obtain ⟨front, last, rfl, set, small, high⟩ := ih
    refine ⟨b :: front, last, rfl, List.forall_mem_cons.2 ⟨large, set⟩, small, ?_⟩
    rw [List.length_cons, div_of_group, high]

/-- All such bytes are a run. -/
lemma exists_denotes {front : Bytes} {last : UInt8} (set : ∀ b ∈ front, ¬ b.toNat < 0x80)
    (small : last.toNat < 0x80) :
    ∃ n, Denotes (front ++ [last]) n ∧ n / 128 ^ front.length = last.toNat := by
  induction front with
  | nil => exact ⟨_, .last small, Nat.div_one _⟩
  | cons b front ih =>
    obtain ⟨large, set⟩ := List.forall_mem_cons.1 set
    obtain ⟨n, denotes, high⟩ := ih set
    refine ⟨_, .more large denotes, ?_⟩
    rw [List.length_cons, div_of_group, high]

/-- What the fifth group must hold for the number to exceed the word. -/
lemma size_le_iff : UInt32.size ≤ n ↔ 0x10 ≤ n / 128 ^ 4 := by
  show 0x10 * 128 ^ 4 ≤ n ↔ _
  exact (Nat.le_div_iff_mul_le (Nat.pow_pos (by decide))).symm

/-- A run of at most five bytes whose number exceeds the word is overfull. -/
lemma Denotes.overfull (h : Denotes bytes n) (short : bytes.length ≤ 5) (took : c.Took bytes c')
    (large : UInt32.size ≤ n) : c.Overfull := by
  obtain ⟨front, last, rfl, set, small, high⟩ := h.split
  have four : front.length ≤ 4 := by
    rw [List.length_append] at short
    exact Nat.le_of_succ_le_succ short
  -- Fewer bytes than five do not fill the word.
  have full : front.length = 4 := by
    by_contra fewer
    have powers : 128 ^ (front.length + 1) ≤ 128 ^ 4 := Nat.pow_le_pow_right (by decide) (by omega)
    have below : n < 128 ^ (front.length + 1) := by
      rw [Nat.pow_succ, Nat.mul_comm]
      exact (Nat.div_lt_iff_lt_mul (Nat.pow_pos (by decide))).1 (high ▸ small)
    exact absurd (Nat.lt_of_lt_of_le below (Nat.le_trans powers (by decide))) (Nat.not_lt.2 large)
  refine ⟨front, last, c'.rest, ?_, full, set, small, ?_⟩
  · rw [took.rest, List.append_assoc, List.singleton_append]
  · rw [← high, full]
    exact size_le_iff.1 large

/-- An overfull run denotes a number that exceeds the word. -/
lemma Cursor.Overfull.denotes (h : c.Overfull) : ∃ bytes n c', Denotes bytes n ∧ bytes.length ≤ 5
    ∧ c.Took bytes c' ∧ UInt32.size ≤ n := by
  obtain ⟨front, last, rest, data, four, set, small, more⟩ := h
  obtain ⟨n, denotes, high⟩ := exists_denotes set small
  have five : (front ++ [last]).length = 5 := by
    rw [List.length_append, four]
    rfl
  refine ⟨front ++ [last], n, ⟨c.pos + 5, rest⟩, denotes, Nat.le_of_eq five, ⟨?_, ?_⟩, ?_⟩
  · rw [data, List.append_assoc, List.singleton_append]
  · rw [five]
  · rw [size_le_iff, ← four, high]
    exact more

namespace Reader

/-! ## Reads -/

/-- A byte is read off the front. -/
lemma uint8_eq_ok {b : UInt8} : uint8 c = .ok b c' ↔ c.Took [b] c' := by
  constructor
  · exact fun h => spells_uint8 c b c' h
  · rintro ⟨data, moved⟩
    obtain ⟨pos, rest⟩ := c'
    subst moved
    rw [uint8, data]
    rfl

/-- The last byte of a run. -/
lemma groups_of_last {b : UInt8} (small : b.toNat < 0x80) (took : c.Took [b] c') :
    groups (left + 1) done c = .ok b.toNat c' := by
  rw [groups, bind_of_ok (uint8_eq_ok.2 took)]
  show (if b.toNat < 0x80 then _ else _ : Reader Nat) c' = _
  rw [if_pos small]
  rfl

/-- A byte of a run that is not the last. -/
lemma groups_of_more {b : UInt8} (large : ¬ b.toNat < 0x80) (took : c.Took [b] c') :
    groups (left + 1) done c
      = (groups left (done + 1) >>= fun high => pure (b.toNat % 128 + 128 * high) : Reader Nat) c' := by
  rw [groups, bind_of_ok (uint8_eq_ok.2 took)]
  show (if b.toNat < 0x80 then _ else _ : Reader Nat) c' = _
  rw [if_neg large]

/-- What is read in groups is the number of a run that is not too long. -/
lemma groups_eq_ok : groups left done c = .ok n c'
    ↔ ∃ bytes, Denotes bytes n ∧ bytes.length ≤ left ∧ c.Took bytes c' := by
  induction left generalizing done n c with
  | zero =>
    constructor
    · intro h
      cases h
    · rintro ⟨bytes, denotes, short, _⟩
      cases denotes <;> cases short
  | succ left ih =>
    constructor
    · intro h
      obtain ⟨b, c₁, first, h⟩ := edit_bind_eq_ok.1 h
      have front := uint8_eq_ok.1 first
      split_ifs at h with small
      · cases h
        exact ⟨[b], .last small, Nat.le_add_left 1 left, front⟩
      · obtain ⟨high, c₂, further, h⟩ := edit_bind_eq_ok.1 h
        cases h
        obtain ⟨bytes, denotes, short, behind⟩ := ih.1 further
        exact ⟨b :: bytes, .more small denotes, Nat.succ_le_succ short, front.trans behind⟩
    · rintro ⟨bytes, denotes, short, took⟩
      cases denotes with
      | @last b small => exact groups_of_last small took
      | @more b bytes n large denotes =>
        obtain ⟨c₁, front, behind⟩ := took.uncons
        have further : groups left (done + 1) c₁ = .ok n c' :=
          ih.2 ⟨bytes, denotes, Nat.le_of_succ_le_succ short, behind⟩
        rw [groups_of_more large front, bind_of_ok further]
        rfl

/-- A run that is too long is refused. -/
lemma groups_of_overlong (done : Nat) (h : Denotes bytes n) (took : c.Took bytes c')
    (long : left < bytes.length) :
    ∃ c₁, groups left done c = .error (.malformed (.sevenBitOverflow (7 * (done + left)))) c₁ := by
  induction h generalizing left done c with
  | @last b small =>
    cases left with
    | zero => exact ⟨c, rfl⟩
    | succ left => cases Nat.lt_of_succ_lt_succ long
  | @more b bytes n large _ ih =>
    cases left with
    | zero => exact ⟨c, rfl⟩
    | succ left =>
      obtain ⟨c₁, front, behind⟩ := took.uncons
      obtain ⟨c₂, refused⟩ := ih (done + 1) behind (Nat.lt_of_succ_lt_succ long)
      refine ⟨c₂, ?_⟩
      rw [groups_of_more large front, bind_of_error refused, Nat.add_assoc, Nat.add_comm 1 left]

/-- An integer is read from a run of at most five bytes, and is its number within 32 bits. -/
theorem sevenBit_eq_ok : sevenBit c = .ok v c'
    ↔ ∃ bytes n, Denotes bytes n ∧ bytes.length ≤ 5 ∧ c.Took bytes c' ∧ v = n % UInt32.size := by
  show EStateM.map (· % UInt32.size) (groups 5 0) c = _ ↔ _
  constructor
  · intro h
    rw [EStateM.map] at h
    cases read : groups 5 0 c with
    | ok n c₁ =>
      rw [read] at h
      cases h
      obtain ⟨bytes, denotes, short, took⟩ := groups_eq_ok.1 read
      exact ⟨bytes, n, denotes, short, took, rfl⟩
    | error e c₁ =>
      rw [read] at h
      cases h
  · rintro ⟨bytes, n, denotes, short, took, rfl⟩
    have read : groups 5 0 c = .ok n c' := groups_eq_ok.2 ⟨bytes, denotes, short, took⟩
    rw [EStateM.map, read]

/-- A run of more than five bytes is refused. -/
lemma sevenBit_of_overlong (h : Denotes bytes n) (took : c.Took bytes c') (long : 5 < bytes.length) :
    ∃ c₁, sevenBit c = .error (.malformed (.sevenBitOverflow 35)) c₁ := by
  obtain ⟨c₁, refused⟩ := groups_of_overlong 0 h took long
  refine ⟨c₁, ?_⟩
  show EStateM.map (· % UInt32.size) (groups 5 0) c = _
  rw [EStateM.map, refused]

/-- What is read as an integer is just what the run at the cursor denotes, and what exceeds 32 bits is
refused, unless the last of five bytes has bits beyond the word. What is read then is the number without
these bits. -/
theorem sevenBit_faithful_iff (c : Cursor) :
    (((∀ v c', sevenBit c = .ok v c' → ∃ bytes, Denotes bytes v ∧ c.Took bytes c')
        ∧ ∀ bytes n c', Denotes bytes n → c.Took bytes c' → UInt32.size ≤ n →
          ∃ bits c₁, sevenBit c = .error (.malformed (.sevenBitOverflow bits)) c₁)
      ↔ ¬ c.Overfull)
      ∧ ∀ bytes n c', Denotes bytes n → c.Took bytes c' → bytes.length ≤ 5 →
        sevenBit c = .ok (n % UInt32.size) c' := by
  have reads : ∀ bytes n c', Denotes bytes n → c.Took bytes c' → bytes.length ≤ 5 →
      sevenBit c = .ok (n % UInt32.size) c' := fun bytes n c' denotes took short =>
    sevenBit_eq_ok.2 ⟨bytes, n, denotes, short, took, rfl⟩
  refine ⟨⟨fun ⟨_, refuses⟩ overfull => ?_, fun faithful => ⟨fun v c' h => ?_, ?_⟩⟩, reads⟩
  · obtain ⟨bytes, n, c', denotes, short, took, large⟩ := overfull.denotes
    obtain ⟨_, _, refused⟩ := refuses bytes n c' denotes took large
    cases refused.symm.trans (reads bytes n c' denotes took short)
  · obtain ⟨bytes, n, denotes, short, took, rfl⟩ := sevenBit_eq_ok.1 h
    have fits : n < UInt32.size := Nat.not_le.1 fun large => faithful (denotes.overfull short took large)
    rw [Nat.mod_eq_of_lt fits]
    exact ⟨bytes, denotes, took⟩
  · intro bytes n c' denotes took large
    by_cases short : bytes.length ≤ 5
    · exact absurd (denotes.overfull short took large) faithful
    · exact ⟨35, sevenBit_of_overlong denotes took (Nat.not_le.1 short)⟩

/-- A string is as long as the run ahead of it says, if the run does not exceed the word. -/
theorem string_of_faithful {s : String} (h : string c = .ok s c') (faithful : ¬ c.Overfull) :
    ∃ run text, Denotes run text.length ∧ c.Took (run ++ text) c' ∧ Text.ofUtf8 text = .ok s := by
  obtain ⟨size, c₁, announced, h⟩ := edit_bind_eq_ok.1 h
  obtain ⟨start, c₂, placed, h⟩ := edit_bind_eq_ok.1 h
  cases placed
  obtain ⟨text, c₂, taken, h⟩ := edit_bind_eq_ok.1 h
  obtain ⟨run, denotes, took⟩ := ((sevenBit_faithful_iff c).1.2 faithful).1 size c₁ announced
  cases gives_take size c₁ text c₂ taken
  cases known : Text.ofUtf8 text with
  | ok s' =>
    rw [known] at h
    cases h
    exact ⟨run, text, denotes, took.trans (spells_take _ c₁ text c' taken), known⟩
  | error cause =>
    rw [known] at h
    cases h

end Reader

namespace Example

/-- Five bytes whose groups make up 35 bits. -/
def brimful : Bytes :=
  [0xFF, 0xFF, 0xFF, 0xFF, 0x7F]

/-- The bits beyond the word get lost without a fault. -/
theorem brimful_wraps : Denotes brimful 34359738367
    ∧ (Cursor.start brimful).Took brimful ⟨5, []⟩
    ∧ UInt32.size ≤ 34359738367
    ∧ Reader.sevenBit (.start brimful) = .ok 4294967295 ⟨5, []⟩ := by
  have large : ¬ (0xFF : UInt8).toNat < 0x80 := by decide
  have last : Denotes [0x7F] (0x7F : UInt8).toNat := .last (by decide)
  exact ⟨.more large (.more large (.more large (.more large last))), ⟨rfl, rfl⟩, by decide, rfl⟩

end Example

end HookWeave

import HookWeave.Proofs.Bytes.Bounds

/-!
# Encodings that invert

A writer appends just the bytes of an encoding, or refuses the value and leaves the buffer
(`Writer.Appends`). In front of these bytes the parser reads the value and takes them all, wherever they are
and whatever follows (`Parsing.ReadsBack`). No integer can be read from fewer bytes than it is compressed to
(`Reader.length_of_compressed`).
-/

namespace HookWeave

/-! ## Writers and encodings -/

namespace Writer

variable {w w' : Writer Unit} {bytes bytes' : Bytes}

/-- The writer appends just these bytes, to any buffer. -/
def Writes (w : Writer Unit) (bytes : Bytes) : Prop :=
  ∀ buffer, w buffer = .ok () (buffer ++ bytes)

/-- The writer refuses the value and leaves the buffer. -/
def Refuses (w : Writer Unit) (e : Fault) : Prop :=
  ∀ buffer, w buffer = .error e buffer

/-- The writer appends the bytes of an encoding, or refuses what has none. -/
def Appends (w : Writer Unit) : Except Fault Bytes → Prop
  | .ok bytes => w.Writes bytes
  | .error e => w.Refuses e

lemma writes_extend (bytes : Bytes) : (extend bytes).Writes bytes :=
  fun _ => rfl

lemma refuses_throw (e : Fault) : (throw e : Writer Unit).Refuses e :=
  fun _ => rfl

lemma Writes.andThen (h : w.Writes bytes) (h' : w'.Writes bytes') :
    (w >>= fun _ => w').Writes (bytes ++ bytes') := by
  intro buffer
  rw [bind_of_ok (h buffer), h', List.append_assoc]

lemma appends_compressed (v : UInt32) : (compressed v).Appends (Encoding.compressed v.toNat) := by
  unfold compressed Encoding.compressed
  by_cases one : v.toNat < 0x80
  · rw [if_pos (show v ≤ 0x7F from Nat.le_of_lt_succ one), if_pos one, toUInt8_eq,
      Nat.mod_eq_of_lt (Nat.lt_trans one (by decide))]
    exact writes_extend _
  rw [if_neg (show ¬ v ≤ 0x7F from fun h => one (Nat.lt_succ_of_le h)), if_neg one]
  by_cases two : v.toNat < 0x4000
  · have high : (0x80 : UInt8) ||| (v >>> 8).toUInt8 = UInt8.ofNat (0x80 + v.toNat / 256) := by
      have byte : (v >>> 8).toUInt8 = UInt8.ofNat (v.toNat / 256 % 256) :=
        toUInt8_shiftRight v (i := 8) (by decide)
      rw [UInt8.or_comm, or_high, byte, Text.toNat_byte (by omega)]
      congr 2
      omega
    rw [if_pos (show v ≤ 0x3FFF from Nat.le_of_lt_succ two), if_pos two, high, toUInt8_eq]
    exact writes_extend _
  rw [if_neg (show ¬ v ≤ 0x3FFF from fun h => two (Nat.lt_succ_of_le h)), if_neg two]
  by_cases four : v.toNat ≤ Encoding.maxCompressed
  · have tagged : (0xC0000000 ||| v).toNat = 0xC0000000 + v.toNat :=
      toNat_or_of_dvd (a := 0xC0000000) 30 (by decide) (Nat.lt_of_le_of_lt four (by decide))
    rw [if_pos (show v ≤ 0x1FFFFFFF from four), if_pos four, bigEndian_eq, tagged]
    exact writes_extend _
  · rw [if_neg (show ¬ v ≤ 0x1FFFFFFF from four), if_neg four]
    exact refuses_throw _

lemma writes_sevenBit (v : UInt32) : (sevenBit v).Writes (Encoding.sevenBit v.toNat) := by
  -- The groups that are left are those of a smaller word.
  induction size : v.toNat using Nat.strongRecOn generalizing v with
  | ind n ih =>
    subst size
    rw [sevenBit, Encoding.sevenBit]
    by_cases last : v.toNat < 0x80
    · rw [if_neg (show ¬ 0x80 ≤ v from Nat.not_le.2 last), if_pos last, toUInt8_eq,
        Nat.mod_eq_of_lt (Nat.lt_trans last (by decide))]
      exact writes_extend _
    · have long : 0x80 ≤ v.toNat := Nat.not_lt.1 last
      have group : v.toUInt8 ||| 0x80 = UInt8.ofNat (0x80 + v.toNat % 128) := by
        rw [or_high, UInt32.toNat_toUInt8, Nat.mod_mod_of_dvd _ (by decide)]
      have rest : (v >>> 7).toNat = v.toNat / 128 := by
        rw [UInt32.toNat_shiftRight]
        exact Nat.shiftRight_eq_div_pow _ 7
      have further := ih _ (rest ▸ Nat.div_lt_self (by omega) (by decide)) (v >>> 7) rfl
      rw [if_pos (show 0x80 ≤ v from long), if_neg last, group, ← rest]
      exact (writes_extend _).andThen further

lemma appends_string (s : String) : (string s).Appends (Encoding.string s) := by
  unfold string Encoding.string
  by_cases short : (Text.utf8 s).length < UInt32.size
  · have size : (UInt32.ofNat (Text.utf8 s).length).toNat = (Text.utf8 s).length :=
      UInt32.toNat_ofNat_of_lt' short
    have announced := writes_sevenBit (UInt32.ofNat (Text.utf8 s).length)
    rw [size] at announced
    simp only [if_pos short]
    exact announced.andThen (writes_extend _)
  · simp only [if_neg short]
    exact refuses_throw _

end Writer

/-! ## Reading back -/

namespace Parsing

variable {α β : Type} {x : Parsing β} {R : β → α → Prop} {r : Reader α} {bytes : Bytes} {b : β} {a : α}

/-- In front of these bytes the step gives `b` and takes just them, wherever they are and whatever follows. -/
def ReadsBack (x : Parsing β) (bytes : Bytes) (b : β) : Prop :=
  ∀ p : Parser, p.InBounds → ∀ rest, p.data.drop p.position.toNat = bytes ++ rest →
    ∃ q, x p = .ok b q ∧ p.taken q = bytes ∧ q.data = p.data ∧ q.data.drop q.position.toNat = rest

/-- What reads back for a read does for the step that follows it. -/
lemma Follows.readsBack (follows : x.Follows R r) (reads : r.Reads bytes a) (only : ∀ b', R b' a → b' = b) :
    x.ReadsBack bytes b := by
  intro p bounds rest there
  have cursor : p.cursor = ⟨p.position.toNat, bytes ++ rest⟩ := congrArg _ there
  have read : r p.cursor = .ok a ⟨p.position.toNat + bytes.length, rest⟩ :=
    cursor ▸ reads p.position.toNat rest
  obtain ⟨b', q, run, related, moved, onward⟩ := follows.of_read_ok bounds read
  cases only b' related
  have took : p.cursor.Took bytes q.cursor := by
    rw [moved]
    exact ⟨there, rfl⟩
  exact ⟨q, run, Parser.taken_of_took took, onward.data, congrArg Cursor.rest moved⟩

end Parsing

namespace Reader

variable {c c' : Cursor} {n : Nat} {bytes : Bytes}

/-- How large an integer can be that takes so many bytes. -/
lemma pos_of_compressed (h : compressed c = .ok n c') :
    (n < 0x80 ∧ c'.pos = c.pos + 1) ∨ (n < 0x4000 ∧ c'.pos = c.pos + 2) ∨ c'.pos = c.pos + 4 := by
  obtain ⟨lead, c₁, first, h⟩ := edit_bind_eq_ok.1 h
  have one := (uint8_eq_ok.1 first).pos
  dsimp only at h
  split_ifs at h with small medium large
  · cases h
    exact .inl ⟨small, one⟩
  · obtain ⟨low, c₂, second, h⟩ := edit_bind_eq_ok.1 h
    have two := (uint8_eq_ok.1 second).pos
    have low_lt := low.toNat_lt
    cases h
    refine .inr (.inl ⟨by omega, ?_⟩)
    rw [two, one]
    rfl
  · obtain ⟨high, c₂, second, h⟩ := edit_bind_eq_ok.1 h
    obtain ⟨middle, c₃, third, h⟩ := edit_bind_eq_ok.1 h
    obtain ⟨low, c₄, fourth, h⟩ := edit_bind_eq_ok.1 h
    cases h
    refine .inr (.inr ?_)
    rw [(uint8_eq_ok.1 fourth).pos, (uint8_eq_ok.1 third).pos, (uint8_eq_ok.1 second).pos, one]
    rfl
  · cases h

/-- An integer is read from no fewer bytes than it is compressed to. -/
lemma length_of_compressed (h : compressed c = .ok n c') (written : Encoding.compressed n = .ok bytes) :
    c.pos + bytes.length ≤ c'.pos := by
  rw [Encoding.length_compressed written]
  obtain ⟨small, moved⟩ | ⟨medium, moved⟩ | moved := pos_of_compressed h
  · rw [if_pos small, moved]
  · split_ifs <;> omega
  · split_ifs <;> omega

end Reader

namespace Writer

/-- What is written is read back from wherever it stands, and no further: a compressed integer, for which no
fewer bytes would do, an integer in groups of seven bits, a string. Integers that are too large to be
compressed are refused, and strings too long to be announced, with the buffer as it was. -/
theorem encodings_invert :
    (∀ v : UInt32, if v.toNat ≤ Encoding.maxCompressed
      then ∃ bytes, (compressed v).Writes bytes ∧ Parsing.compressed.ReadsBack bytes v
        ∧ (bytes.length = 1 ∨ bytes.length = 2 ∨ bytes.length = 4)
        ∧ ∀ p q, p.InBounds → Parsing.compressed p = .ok v q →
          p.position.toNat + bytes.length ≤ q.position.toNat
      else (compressed v).Refuses (.malformed (.compressedTooLarge v.toNat)))
    ∧ (∀ v : UInt32, ∃ bytes, (sevenBit v).Writes bytes ∧ Parsing.sevenBit.ReadsBack bytes v)
    ∧ ∀ s : String, if (Text.utf8 s).length < UInt32.size
      then ∃ bytes, (string s).Writes bytes ∧ Parsing.string.ReadsBack bytes s
      else (string s).Refuses (.malformed (.stringTooLong (Text.utf8 s).length)) := by
  have word (v v' : UInt32) (same : v'.toNat = v.toNat) : v' = v := UInt32.toNat_inj.1 same
  refine ⟨fun v => ?_, fun v => ?_, fun s => ?_⟩
  · have appends := appends_compressed v
    split_ifs with fits
    · obtain ⟨bytes, written⟩ := Encoding.compressed_eq_ok fits
      rw [written] at appends
      refine ⟨bytes, appends, ?_, ?_, fun p q bounds h => ?_⟩
      · exact Parsing.follows_compressed.readsBack (Reader.reads_compressed written) (word v)
      · rw [Encoding.length_compressed written]
        split_ifs <;> simp
      · obtain ⟨_, rfl, read, _⟩ := Parsing.follows_compressed.read_of_ok bounds h
        exact Reader.length_of_compressed read written
    · rw [Encoding.compressed_of_lt (Nat.not_le.1 fits)] at appends
      exact appends
  · refine ⟨_, writes_sevenBit v, ?_⟩
    exact Parsing.follows_sevenBit.readsBack (Reader.reads_sevenBit v.toNat_lt) (word v)
  · have appends := appends_string s
    split_ifs with short
    · have written : Encoding.string s = .ok _ := if_pos short
      rw [written] at appends
      exact ⟨_, appends, Parsing.follows_string.readsBack (Reader.reads_string written) fun _ h => h⟩
    · have refused : Encoding.string s = .error _ := if_neg short
      rw [refused] at appends
      exact appends

example : compressed 0x4000 [0xFF] = .ok () [0xFF, 0xC0, 0x00, 0x40, 0x00] := rfl

end Writer

end HookWeave

import HookWeave.Proofs.Bytes.Groups
import HookWeave.Proofs.Bytes.Words

/-!
# The parser and the reader

A parser in bounds stands for a cursor: what it is at, and what lies behind (`Parser.cursor`). A step of the
parser follows a read if, from any parser in bounds, it comes to what the read comes to from the cursor, and
leaves a parser in bounds over the same data, at the cursor that the read leaves and nowhere further back
(`Parsing.Follows`). Following composes along `>>=`, so every read of the parser follows one of `Reader`
(`Parser.Call.follows`): none of them goes astray.
-/

namespace HookWeave

namespace Parser

/-- The position and what lies behind it. -/
def cursor (p : Parser) : Cursor :=
  ⟨p.position.toNat, p.data.drop p.position.toNat⟩

/-- The position does not lie past the end. -/
def InBounds (p : Parser) : Prop :=
  p.position.toNat ≤ p.data.length

/-- A parser over the same data that is in bounds and has not moved back. -/
structure Onward (p p' : Parser) : Prop where
  data : p'.data = p.data
  forward : p.position.toNat ≤ p'.position.toNat
  inBounds : p'.InBounds

variable {p p₁ p' : Parser} {length : UInt64}

lemma Onward.refl (bounds : p.InBounds) : p.Onward p :=
  ⟨rfl, Nat.le_refl _, bounds⟩

lemma Onward.trans (h : p.Onward p₁) (h' : p₁.Onward p') : p.Onward p' :=
  ⟨h'.data.trans h.data, Nat.le_trans h.forward h'.forward, h'.inBounds⟩

/-- A word counts the data. -/
lemma toNat_size (p : Parser) : p.size.toNat = p.data.length :=
  UInt64.toNat_ofNat_of_lt' p.addressable

/-- What is left is what lies behind the position. -/
lemma toNat_remaining (bounds : p.InBounds) :
    p.remaining.toNat = p.data.length - p.position.toNat := by
  have le : p.position ≤ p.size := UInt64.le_iff_toNat_le.2 (toNat_size p ▸ bounds)
  rw [remaining, if_pos le, UInt64.toNat_sub_of_le _ _ le, toNat_size]

/-- As many bytes are left for the parser as for the cursor. -/
lemma remaining_cursor (bounds : p.InBounds) : p.cursor.remaining = p.remaining.toNat := by
  rw [toNat_remaining bounds, Cursor.remaining, cursor, List.length_drop]

/-- An end within the data is found, and it is no more than the data are long. -/
lemma endAfter_of_le (within : p.position.toNat + length.toNat ≤ p.data.length) :
    p.endAfter length = .ok (p.position + length)
      ∧ (p.position + length).toNat = p.position.toNat + length.toNat := by
  have fits : p.position.toNat + length.toNat < UInt64.size := Nat.lt_of_le_of_lt within p.addressable
  have sum : (p.position + length).toNat = p.position.toNat + length.toNat := by
    rw [UInt64.toNat_add, Nat.mod_eq_of_lt fits]
  have inside : ¬ p.size < p.position + length := by
    rw [UInt64.lt_iff_toNat_lt, sum, toNat_size]
    exact Nat.not_lt.2 within
  refine ⟨?_, sum⟩
  rw [endAfter, checkedAdd?, if_pos fits]
  exact if_neg inside

/-- No end past the data is found, be it a word or not. -/
lemma endAfter_of_lt (beyond : p.data.length < p.position.toNat + length.toNat) :
    p.endAfter length = .error .outOfBounds := by
  rw [endAfter, checkedAdd?]
  by_cases fits : p.position.toNat + length.toNat < UInt64.size
  · have outside : p.size < p.position + length := by
      rw [UInt64.lt_iff_toNat_lt, UInt64.toNat_add, Nat.mod_eq_of_lt fits, toNat_size]
      exact beyond
    rw [if_pos fits]
    exact if_pos outside
  · rw [if_neg fits]

/-- Behind bytes that are there the parser stands where the cursor does. -/
lemma onward_of_le (within : p.position.toNat + length.toNat ≤ p.data.length) :
    p.Onward { p with position := p.position + length }
      ∧ cursor { p with position := p.position + length }
        = ⟨p.cursor.pos + length.toNat, p.cursor.rest.drop length.toNat⟩ := by
  have sum := (endAfter_of_le within).2
  refine ⟨⟨rfl, ?_, ?_⟩, ?_⟩
  · exact sum ▸ Nat.le_add_right _ _
  · show (p.position + length).toNat ≤ p.data.length
    exact sum ▸ within
  · rw [cursor, cursor, List.drop_drop]
    simp only [sum]

end Parser

namespace Reader

variable {c : Cursor} {n : Nat}

lemma take_of_le (enough : n ≤ c.rest.length) :
    take n c = .ok (c.rest.take n) ⟨c.pos + n, c.rest.drop n⟩ := by
  have split := splitExact?_append (c.rest.take n) (c.rest.drop n)
  rw [List.take_append_drop, List.length_take, Nat.min_eq_left enough] at split
  rw [take, split]

lemma take_of_lt (few : c.rest.length < n) : take n c = .error .outOfBounds c := by
  rw [take]
  cases split : splitExact? n c.rest with
  | none => rfl
  | some parts =>
    obtain ⟨length, whole⟩ := of_splitExact?_eq_some split
    rw [whole, List.length_append, length] at few
    omega

/-- A byte is an integer of that width. -/
lemma uint8_eq : uint8 = UInt8.ofNat <$> unsigned 1 := by
  funext c
  obtain ⟨pos, rest⟩ := c
  cases rest with
  | nil => rfl
  | cons b rest =>
    have byte : UInt8.ofNat (ofLittleEndian [b]) = b := UInt8.ofNat_toNat
    show _ = EStateM.Result.ok (UInt8.ofNat (ofLittleEndian [b])) _
    rw [byte]
    rfl

end Reader

namespace Parsing

variable {α α' β β' : Type} {R : β → α → Prop} {S : β' → α' → Prop} {p : Parser} {x : Parsing β}
  {r : Reader α} {f : β → Parsing β'} {g : α → Reader α'} {length : UInt64}

/-- What a parser comes to from `p`, beside what a reader comes to: related values, or the same fault, with
the parser onward and at the cursor that the reader leaves. -/
inductive Alike (R : β → α → Prop) (p : Parser) :
    EStateM.Result Halt Parser β → EStateM.Result Fault Cursor α → Prop
  | ok {b : β} {a : α} {p' : Parser} :
    R b a →
    p.Onward p' →
    Alike R p (.ok b p') (.ok a p'.cursor)
  | error {e : Fault} {p' : Parser} :
    p.Onward p' →
    Alike R p (.error (.fault e) p') (.error e p'.cursor)

/-- From every parser in bounds the step comes to what the read comes to from its cursor. -/
def Follows (x : Parsing β) (R : β → α → Prop) (r : Reader α) : Prop :=
  ∀ p, p.InBounds → Alike R p (x p) (r p.cursor)

/-! ## Outcomes -/

section

variable (follows : x.Follows R r) (bounds : p.InBounds)
include follows bounds

/-- What the step gives the read gives at the cursor. -/
lemma Follows.read_of_ok {b : β} {q : Parser} (h : x p = .ok b q) :
    ∃ a, R b a ∧ r p.cursor = .ok a q.cursor ∧ p.Onward q := by
  have alike := follows p bounds
  rw [h] at alike
  generalize r p.cursor = read at alike ⊢
  cases alike with
  | ok related onward => exact ⟨_, related, rfl, onward⟩

/-- Where the step halts the read fails, and the data were not accessed out of range. -/
lemma Follows.read_of_error {e : Halt} {q : Parser} (h : x p = .error e q) :
    ∃ cause, e = .fault cause ∧ r p.cursor = .error cause q.cursor ∧ p.Onward q := by
  have alike := follows p bounds
  rw [h] at alike
  generalize r p.cursor = read at alike ⊢
  cases alike with
  | error onward => exact ⟨_, rfl, rfl, onward⟩

/-- What the read gives at the cursor the step gives. -/
lemma Follows.of_read_ok {a : α} {c : Cursor} (h : r p.cursor = .ok a c) :
    ∃ b q, x p = .ok b q ∧ R b a ∧ q.cursor = c ∧ p.Onward q := by
  have alike := follows p bounds
  rw [h] at alike
  generalize x p = outcome at alike ⊢
  cases alike with
  | ok related onward => exact ⟨_, _, rfl, related, rfl, onward⟩

/-- Where the read fails the step halts. -/
lemma Follows.of_read_error {e : Fault} {c : Cursor} (h : r p.cursor = .error e c) :
    ∃ q, x p = .error (.fault e) q ∧ q.cursor = c ∧ p.Onward q := by
  have alike := follows p bounds
  rw [h] at alike
  generalize x p = outcome at alike ⊢
  cases alike with
  | error onward => exact ⟨_, rfl, rfl, onward⟩

end

/-! ## Composition -/

lemma Follows.pure {b : β} {a : α} (related : R b a) :
    (Pure.pure b : Parsing β).Follows R (Pure.pure a) :=
  fun _ bounds => .ok related (.refl bounds)

/-- Where the first steps come to alike outcomes, and what follows a success does too. -/
lemma Alike.bind (hx : Alike R p (x p) (r p.cursor))
    (hf : ∀ b a p', R b a → p.Onward p' → x p = .ok b p' → Alike S p' (f b p') (g a p'.cursor)) :
    Alike S p ((x >>= f) p) ((r >>= g) p.cursor) := by
  rw [Reader.bind_apply]
  cases hr : r p.cursor with
  | ok a c =>
    rw [hr] at hx
    generalize run : x p = outcome at hx
    cases hx with
    | @ok b _ p₁ related onward =>
      have second := hf b a p₁ related onward run
      rw [bind_of_ok run]
      simp only
      generalize g a p₁.cursor = read at second
      generalize f b p₁ = parsed at second
      cases second with
      | ok related' onward' => exact .ok related' (onward.trans onward')
      | error onward' => exact .error (onward.trans onward')
  | error e c =>
    rw [hr] at hx
    generalize run : x p = outcome at hx
    cases hx with
    | error onward =>
      rw [bind_of_error run]
      exact .error onward

lemma Follows.bind (hx : x.Follows R r) (hf : ∀ b a, R b a → (f b).Follows S (g a)) :
    (x >>= f).Follows S (r >>= g) :=
  fun p bounds => (hx p bounds).bind fun b a p' related onward _ =>
    hf b a related p' onward.inBounds

/-- A read may go on computing with its value where the step does not. -/
lemma Follows.bind_value {T : β → α' → Prop} {h : α → α'} (hx : x.Follows R r)
    (related : ∀ b a, R b a → T b (h a)) : x.Follows T (r >>= fun a => Pure.pure (h a)) := by
  have both := hx.bind (f := Pure.pure) (g := fun a => Pure.pure (h a)) (S := T) fun b a here =>
    .pure (related b a here)
  rwa [bind_pure] at both

lemma Follows.map {h : β → β'} {h' : α → α'} (hx : x.Follows R r)
    (related : ∀ b a, R b a → S (h b) (h' a)) : (h <$> x).Follows S (h' <$> r) := by
  rw [map_eq_pure_bind, map_eq_pure_bind]
  exact hx.bind fun b a both => .pure (related b a both)

lemma follows_refuse (e : Fault) : (refuse e : Parsing β).Follows R (throw e) :=
  fun _ bounds => .error (.refl bounds)

lemma follows_malformed (cause : Malformation) :
    (malformed cause : Parsing β).Follows R (Reader.malformed cause) :=
  follows_refuse _

lemma Follows.ite {c c' : Prop} [Decidable c] [Decidable c'] {y : Parsing β} {s : Reader α} (same : c ↔ c')
    (hx : c' → x.Follows R r) (hy : ¬ c' → y.Follows R s) :
    (if c then x else y).Follows R (if c' then r else s) := by
  by_cases holds : c'
  · rw [if_pos (same.2 holds), if_pos holds]
    exact hx holds
  · rw [if_neg fun h => holds (same.1 h), if_neg holds]
    exact hy holds

/-! ## Runs of bytes and values of a fixed size -/

/-- Where the bytes are there, they are what lies behind the position. -/
lemma ahead_of_le (within : p.position.toNat + length.toNat ≤ p.data.length) :
    ahead length p = .ok (p.cursor.rest.take length.toNat, p.position + length) p := by
  obtain ⟨found, sum⟩ := Parser.endAfter_of_le within
  have stop : endAfter length p = .ok (p.position + length) p := by
    rw [endAfter, edit_get_bind, found]
    rfl
  have inside : p.position ≤ p.position + length ∧ p.position + length ≤ p.size := by
    rw [UInt64.le_iff_toNat_le, UInt64.le_iff_toNat_le, sum, p.toNat_size]
    exact ⟨Nat.le_add_right _ _, within⟩
  have bytes : slice p.position (p.position + length) p
      = .ok (p.cursor.rest.take length.toNat) p := by
    show (if _ then _ else _ : Parsing Bytes) p = _
    rw [if_pos inside, sum, Nat.add_sub_cancel_left]
    rfl
  rw [ahead, bind_of_ok stop]
  show (slice p.position (p.position + length) >>= _ : Parsing _) p = _
  rw [bind_of_ok bytes]
  rfl

/-- Where they are not, this is found before the data are accessed. -/
lemma ahead_of_lt (beyond : p.data.length < p.position.toNat + length.toNat) :
    ahead length p = .error (.fault .outOfBounds) p := by
  have stop : endAfter length p = .error (.fault .outOfBounds) p := by
    rw [endAfter, edit_get_bind, Parser.endAfter_of_lt beyond]
    rfl
  rw [ahead, bind_of_error stop]

/-- A step that takes bytes ahead, or refuses them where they are not all there. -/
lemma follows_ahead {k : Bytes × UInt64 → Parsing β} {value : Bytes → α}
    (takes : ∀ p bytes, bytes.length = length.toNat →
      ∃ b, R b (value bytes) ∧ k (bytes, p.position + length) p
        = .ok b { p with position := p.position + length }) :
    (ahead length >>= k).Follows R (value <$> Reader.take length.toNat) := by
  intro p bounds
  have left : p.cursor.rest.length = p.data.length - p.position.toNat := List.length_drop
  show Alike R p _ (EStateM.map value (Reader.take length.toNat) p.cursor)
  rw [EStateM.map]
  by_cases within : p.position.toNat + length.toNat ≤ p.data.length
  · have enough : length.toNat ≤ p.cursor.rest.length := by omega
    obtain ⟨onward, there⟩ := Parser.onward_of_le within
    obtain ⟨b, related, run⟩ := takes p _ (List.length_take_of_le enough)
    rw [bind_of_ok (ahead_of_le within), run, Reader.take_of_le enough, ← there]
    exact .ok related onward
  · have few : p.cursor.rest.length < length.toNat := by
      have bounds : p.position.toNat ≤ p.data.length := bounds
      omega
    rw [bind_of_error (ahead_of_lt (Nat.not_le.1 within)), Reader.take_of_lt few]
    exact .error (.refl bounds)

lemma follows_take (length : UInt64) : (take length).Follows Eq (Reader.take length.toNat) := by
  have follows : (take length).Follows Eq (id <$> Reader.take length.toNat) :=
    follows_ahead fun p bytes _ => ⟨bytes, rfl, rfl⟩
  rwa [id_map] at follows

/-- The bytes that are there always fill the width. -/
lemma follows_unsigned (width : UInt64) :
    (unsigned width).Follows Eq (Reader.unsigned width.toNat) := by
  refine follows_ahead fun p bytes fill => ⟨ofLittleEndian bytes, rfl, ?_⟩
  show (if _ then _ else _ : Parsing Nat) p = _
  rw [if_pos fill]
  rfl

lemma follows_uint8 : uint8.Follows Eq Reader.uint8 := by
  rw [Reader.uint8_eq]
  exact (follows_unsigned 1).map fun _ _ same => congrArg UInt8.ofNat same

/-- The byte at the position is the first of what lies behind it. -/
lemma follows_next : next.Follows Eq Reader.uint8 := by
  intro p bounds
  have size := p.toNat_size
  by_cases more : p.position.toNat < p.data.length
  · have rest : p.cursor.rest = p.data[p.position.toNat] :: p.data.drop (p.position.toNat + 1) :=
      List.drop_eq_getElem_cons more
    have one : p.position.toNat + (1 : UInt64).toNat ≤ p.data.length := more
    obtain ⟨onward, there⟩ := Parser.onward_of_le one
    have inside : ¬ p.size ≤ p.position := by
      rw [UInt64.le_iff_toNat_le, size]
      omega
    have byte : byteAt p.position p = .ok p.data[p.position.toNat] p := by
      rw [byteAt, edit_get_bind, List.getElem?_eq_getElem more]
      rfl
    have run : next p = .ok p.data[p.position.toNat] { p with position := p.position + 1 } := by
      show (if _ then _ else _ : Parsing UInt8) p = _
      rw [if_neg inside, bind_of_ok byte]
      rfl
    have read : Reader.uint8 p.cursor
        = .ok p.data[p.position.toNat] (Parser.cursor { p with position := p.position + 1 }) := by
      rw [there, Reader.uint8, rest]
      rfl
    rw [run, read]
    exact .ok rfl onward
  · have rest : p.cursor.rest = [] := List.drop_eq_nil_of_le (Nat.not_lt.1 more)
    have outside : p.size ≤ p.position := by
      rw [UInt64.le_iff_toNat_le, size]
      omega
    have run : next p = .error (.fault .outOfBounds) p := by
      show (if _ then _ else _ : Parsing UInt8) p = _
      rw [if_pos outside]
      rfl
    rw [run, Reader.uint8, rest]
    exact .error (.refl bounds)

/-! ## Encodings of several bytes -/

lemma follows_compressed :
    compressed.Follows (fun v n => v.toNat = n) Reader.compressed := by
  refine follows_uint8.bind fun lead _ same => ?_
  subst same
  refine .ite (lead_one lead) (fun _ => .pure lead.toNat_toUInt32) fun not_one => ?_
  refine .ite ((lead_two lead).trans ⟨And.right, fun two => ⟨Nat.not_lt.1 not_one, two⟩⟩)
    (fun _ => ?_) fun not_two => ?_
  · refine follows_uint8.bind fun low _ same => ?_
    subst same
    exact .pure (toNat_two_bytes lead low)
  · refine .ite ((lead_four lead).trans ⟨And.right, fun four => ⟨Nat.not_lt.1 not_two, four⟩⟩)
      (fun _ => ?_) fun _ => ?_
    · refine follows_uint8.bind fun high _ same => ?_
      subst same
      refine follows_uint8.bind fun middle _ same => ?_
      subst same
      refine follows_uint8.bind fun low _ same => ?_
      subst same
      exact .pure (toNat_four_bytes lead high middle low)
    · rw [UInt8.ofNat_toNat]
      exact follows_malformed _

lemma follows_count : count.Follows (fun v n => v.toNat = n) Reader.count := by
  refine follows_compressed.bind fun v n same p bounds => ?_
  have size : v.toUInt64.toNat = n := v.toNat_toUInt64.trans same
  have guarded : (if p.remaining < v.toUInt64 then
        malformed (.countExceedsData v.toUInt64.toNat p.position.toNat p.remaining.toNat)
      else Pure.pure v.toUInt64 : Parsing UInt64).Follows (fun v n => v.toNat = n)
      (if p.cursor.remaining < n then
        Reader.malformed (.countExceedsData n p.cursor.pos p.cursor.remaining)
      else Pure.pure n) := by
    rw [size, p.remaining_cursor bounds]
    refine .ite ?_ (fun _ => follows_malformed _) fun _ => .pure size
    rw [UInt64.lt_iff_toNat_lt, size]
  exact guarded p bounds

lemma follows_row : row.Follows (fun v n => v.map UInt64.toNat = n) Reader.row := by
  refine follows_compressed.bind fun v n same => ?_
  have size : v.toUInt64.toNat = n := v.toNat_toUInt64.trans same
  dsimp only
  cases n with
  | zero =>
    have none : ¬ 1 ≤ v.toUInt64 := by
      rw [UInt64.le_iff_toNat_le, size]
      decide
    rw [if_neg none]
    exact .pure rfl
  | succ n =>
    have some : 1 ≤ v.toUInt64 := by
      rw [UInt64.le_iff_toNat_le, size]
      exact Nat.le_add_left 1 n
    rw [if_pos some]
    refine .pure ?_
    rw [Option.map_some, UInt64.toNat_sub_of_le _ _ some, size]
    rfl

/-- The groups from `7 * done` on make up what the read makes of them, added above the bits that are
there. -/
lemma follows_groups {value : UInt32} {left done : Nat} (five : left + done = 5) (open' : done < 5)
    (below : value.toNat < 2 ^ (7 * done)) :
    (groups value (7 * done)).Follows
      (fun v n => v.toNat = (value.toNat + 2 ^ (7 * done) * n) % UInt32.size)
      (Reader.groups left done) := by
  induction left generalizing value done with
  | zero => omega
  | succ left ih =>
    rw [groups, Reader.groups]
    refine follows_next.bind fun b _ same => ?_
    subst same
    -- Five groups at most keep the shift within the word; only the fifth can exceed it.
    have group := toNat_or_group b below (by omega)
    refine .ite (lead_one b) (fun small => .pure ?_) fun _ => ?_
    · rw [group, Nat.mod_eq_of_lt small]
    · by_cases last : left = 0
      · subst last
        rw [if_pos (by omega)]
        exact follows_malformed _
      · rw [if_neg (by omega)]
        have power : 2 ^ (7 * (done + 1)) = 2 ^ (7 * done) * 128 := Nat.pow_add 2 (7 * done) 7
        have low : b.toNat % 128 ≤ 127 := Nat.le_of_lt_succ (Nat.mod_lt _ (by decide))
        have filled : value.toNat + 2 ^ (7 * done) * (b.toNat % 128) < 2 ^ (7 * (done + 1)) := by
          have := Nat.mul_le_mul_left (2 ^ (7 * done)) low
          omega
        have further := ih (by omega) (by omega) (group ▸ Nat.lt_of_le_of_lt (Nat.mod_le _ _) filled)
        refine further.bind_value fun v n same => ?_
        rw [same, group, Nat.mod_add_mod, power, Nat.mul_add, Nat.mul_assoc, Nat.add_assoc]

lemma follows_sevenBit : sevenBit.Follows (fun v n => v.toNat = n) Reader.sevenBit := by
  have whole : (groups 0 (7 * 0)).Follows
      (fun v n => v.toNat = ((0 : UInt32).toNat + 2 ^ (7 * 0) * n) % UInt32.size) (Reader.groups 5 0) :=
    follows_groups rfl (by decide) (by decide)
  have read : (id <$> sevenBit).Follows (fun v n => v.toNat = n) Reader.sevenBit :=
    whole.map fun v n same => by simpa using same
  rwa [id_map] at read

/-- Bytes are only taken where they are there. -/
lemma le_of_take {p p' : Parser} {bytes : Bytes} (h : take length p = .ok bytes p') :
    p.position.toNat + length.toNat ≤ p.data.length := by
  by_contra beyond
  rw [take, bind_of_error (ahead_of_lt (Nat.not_le.1 beyond))] at h
  cases h

lemma follows_string : string.Follows Eq Reader.string := by
  refine follows_sevenBit.bind fun v n same p bounds => ?_
  have size : v.toUInt64.toNat = n := v.toNat_toUInt64.trans same
  subst size
  show Alike Eq p ((take v.toUInt64 >>= fun bytes => _ : Parsing String) p)
    ((Reader.take v.toUInt64.toNat >>= fun bytes => _ : Reader String) p.cursor)
  refine (follows_take v.toUInt64 p bounds).bind fun bytes _ p' same onward taken => ?_
  subst same
  have stop := (Parser.endAfter_of_le (le_of_take taken)).2
  cases Text.ofUtf8 bytes with
  | ok s => exact .ok rfl (.refl onward.inBounds)
  | error cause =>
    show Alike Eq p' ((malformed (.notUtf8 _ _ cause) : Parsing String) p') _
    rw [stop]
    exact follows_malformed _ p' onward.inBounds

end Parsing

namespace Parser.Call

/-- The read that a call makes. -/
def reader : Call → Reader Item
  | .scalar type => (fun bits => .value (type.ofBits bits)) <$> Reader.unsigned type.width.toNat
  | .compressed => (fun n => .word (.ofNat n)) <$> Reader.compressed
  | .count => (fun n => .count (.ofNat n)) <$> Reader.count
  | .row => (fun index => .row (index.map .ofNat)) <$> Reader.row
  | .sevenBit => (fun n => .word (.ofNat n)) <$> Reader.sevenBit
  | .string => .text <$> Reader.string
  | .bytes length => .bytes <$> Reader.take length.toNat

/-- Every call follows a read. -/
theorem follows (call : Call) : call.read.Follows Eq call.reader := by
  have word (v : UInt32) (n : Nat) (same : v.toNat = n) : Item.word v = .word (.ofNat n) := by
    rw [← same, UInt32.ofNat_toNat]
  cases call with
  | scalar type =>
    have bits : (Parsing.scalar type).Follows (fun v bits => v = type.ofBits bits)
        (id <$> Reader.unsigned type.width.toNat) :=
      (Parsing.follows_unsigned type.width).map fun _ _ => congrArg _
    rw [id_map] at bits
    exact bits.map fun _ _ => congrArg _
  | compressed => exact Parsing.follows_compressed.map word
  | count =>
    refine Parsing.follows_count.map fun v n same => ?_
    rw [← same, UInt64.ofNat_toNat]
  | row =>
    refine Parsing.follows_row.map fun v index same => ?_
    subst same
    cases v with
    | none => rfl
    | some v =>
      rw [Option.map_some, Option.map_some, UInt64.ofNat_toNat]
  | sevenBit => exact Parsing.follows_sevenBit.map word
  | string => exact Parsing.follows_string.map fun _ _ => congrArg _
  | bytes length => exact (Parsing.follows_take length).map fun _ _ => congrArg _

end Parser.Call

end HookWeave

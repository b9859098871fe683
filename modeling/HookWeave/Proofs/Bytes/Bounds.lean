import HookWeave.Proofs.Bytes.Parsers

/-!
# Reads within bounds

What a read gives and how far it goes are settled by the bytes that it takes (`Reader.Local`), which composes
along `>>=`; a count also asks how many bytes are left (`Parser.Item.Admits`). With this, every call of a
parser in bounds is sound (`Parser.Call.Sound`): it accesses no byte out of range, does not move back nor
past the end, and is local. Calls one after another, failed ones too, lead from sound calls to sound calls
(`Parser.Leads.within_bounds`).
-/

namespace HookWeave

namespace Reader

variable {α β : Type} {r s : Reader α} {f : α → Reader β} {c c' : Cursor} {bytes rest : Bytes} {n pos : Nat}

/-- The bytes that the read takes settle what it gives and that it takes just them. -/
def Local (r : Reader α) : Prop :=
  ∀ c a c', r c = .ok a c' → ∃ bytes, c.Took bytes c' ∧ r.Reads bytes a

lemma Local.pure (a : α) : (Pure.pure a : Reader α).Local := by
  intro c a' c' h
  cases h
  exact ⟨[], .nil c, Reads.pure⟩

lemma Local.bind (hr : r.Local) (hf : ∀ a, (f a).Local) : (r >>= f).Local := by
  intro c b c' h
  obtain ⟨a, c₁, first, second⟩ := edit_bind_eq_ok.1 h
  obtain ⟨front, took, reads⟩ := hr c a c₁ first
  obtain ⟨back, took', reads'⟩ := hf a c₁ b c' second
  exact ⟨front ++ back, took.trans took', reads.bind reads'⟩

lemma Local.map (g : α → β) (hr : r.Local) : (g <$> r).Local := by
  rw [map_eq_pure_bind]
  exact hr.bind fun a => .pure (g a)

lemma local_malformed (cause : Malformation) : (malformed cause : Reader α).Local := by
  intro c a c' h
  cases h

lemma Local.ite {p : Prop} [Decidable p] (hr : r.Local) (hs : s.Local) : (if p then r else s).Local := by
  split
  · exact hr
  · exact hs

lemma local_uint8 : uint8.Local :=
  fun _ b _ h => ⟨[b], uint8_eq_ok.1 h, reads_uint8 b⟩

lemma local_take (n : Nat) : (take n).Local := by
  intro c bytes c' h
  have length := gives_take n c bytes c' h
  exact ⟨bytes, spells_take n c bytes c' h, length ▸ reads_take bytes⟩

lemma local_compressed : compressed.Local := by
  refine local_uint8.bind fun lead => .ite (.pure _) (.ite ?_ (.ite ?_ (local_malformed _)))
  · exact local_uint8.bind fun low => .pure _
  · refine local_uint8.bind fun high => local_uint8.bind fun middle => ?_
    exact local_uint8.bind fun low => .pure _

lemma local_row : row.Local := by
  refine local_compressed.bind fun n => ?_
  cases n with
  | zero => exact .pure none
  | succ n => exact .pure (some n)

lemma local_groups (left done : Nat) : (groups left done).Local := by
  induction left generalizing done with
  | zero => exact local_malformed _
  | succ left ih =>
    refine local_uint8.bind fun b => .ite (.pure _) ?_
    exact (ih (done + 1)).bind fun high => .pure _

lemma local_sevenBit : sevenBit.Local :=
  (local_groups 5 0).map _

/-- Only a fault tells where the string was. -/
lemma local_string : string.Local := by
  intro c s c' h
  obtain ⟨size, c₁, announced, h⟩ := edit_bind_eq_ok.1 h
  obtain ⟨start, c₂, placed, h⟩ := edit_bind_eq_ok.1 h
  cases placed
  obtain ⟨bytes, c₂, taken, h⟩ := edit_bind_eq_ok.1 h
  obtain ⟨run, took, reads⟩ := local_sevenBit c size c₁ announced
  obtain ⟨text, took', reads'⟩ := local_take size c₁ bytes c₂ taken
  cases known : Text.ofUtf8 bytes with
  | ok s' =>
    rw [known] at h
    cases h
    refine ⟨run ++ text, took.trans took', fun pos => (reads pos).bind ?_⟩
    refine ReadsAt.bind (s := []) readsAt_position ((reads' _).bind_nil ?_)
    simp only [known]
    exact ReadsAt.pure
  | error cause =>
    rw [known] at h
    cases h

/-- The bytes of a count are those of an integer, which does not exceed the bytes that are left. -/
lemma took_of_count (h : count c = .ok n c') :
    ∃ bytes, c.Took bytes c' ∧ compressed.Reads bytes n ∧ n ≤ c'.rest.length := by
  obtain ⟨n', c₁, read, h⟩ := edit_bind_eq_ok.1 h
  have h : (if c₁.remaining < n' then malformed _ else Pure.pure n' : Reader Nat) c₁ = .ok n c' := h
  split at h
  · cases h
  · next fits =>
    cases h
    obtain ⟨bytes, took, reads⟩ := local_compressed c n c' read
    exact ⟨bytes, took, reads, Nat.not_lt.1 fits⟩

/-- The bytes of an integer read as a count where as many bytes follow. -/
lemma count_of_le (reads : compressed.Reads bytes n) (enough : n ≤ rest.length) :
    count ⟨pos, bytes ++ rest⟩ = .ok n ⟨pos + bytes.length, rest⟩ := by
  have fits : ¬ (Cursor.mk (pos + bytes.length) rest).remaining < n := Nat.not_lt.2 enough
  rw [count, bind_of_ok (reads pos rest)]
  show (if _ then _ else _ : Reader Nat) _ = _
  rw [if_neg fits]
  rfl

/-- Where fewer follow they are refused. -/
lemma count_of_lt (reads : compressed.Reads bytes n) (few : rest.length < n) :
    ∃ e c', count ⟨pos, bytes ++ rest⟩ = .error e c' := by
  have exceeds : (Cursor.mk (pos + bytes.length) rest).remaining < n := few
  rw [count, bind_of_ok (reads pos rest)]
  exact ⟨_, _, congrFun (if_pos exceeds) _⟩

/-- A run of bytes that is not there leaves the cursor. -/
lemma take_keeps {e : Fault} (h : take n c = .error e c') : c' = c := by
  unfold take at h
  split at h
  · cases h
  · cases h
    rfl

end Reader

namespace Parser

variable {data : Bytes} {addressable : data.length < UInt64.size} {p q p' : Parser} {call : Call}
  {item : Item}

/-- The bytes between the positions of two parsers. -/
def taken (p q : Parser) : Bytes :=
  (p.data.drop p.position.toNat).take (q.position.toNat - p.position.toNat)

/-- What may follow an item: anything, but at least as many bytes as a count says. -/
def Item.Admits : Item → Bytes → Prop
  | .count n, rest => n.toNat ≤ rest.length
  | _, _ => True

/-- What a call does from a parser. -/
structure Call.Sound (call : Call) (p : Parser) : Prop where
  /-- The data are not accessed out of range. -/
  inRange : ∀ q, call.read p ≠ .error .astray q
  /-- The call does not move back, nor past the end, whether it gives something or not. -/
  onward : p.Onward (after (call.read p))
  /-- Values of a fixed size and runs of bytes are taken whole or not at all. -/
  whole : ∀ e q, (∃ type, call = .scalar type) ∨ (∃ length, call = .bytes length) →
    call.read p = .error e q → q = p
  /-- In front of the bytes that the call takes, it takes just them and gives the same, wherever they are
  and whatever follows, unless that is too little for a count. -/
  settled : ∀ item q, call.read p = .ok item q → ∀ p₂ : Parser, p₂.InBounds → ∀ rest,
    p₂.data.drop p₂.position.toNat = p.taken q ++ rest →
      (item.Admits rest → ∃ q₂, call.read p₂ = .ok item q₂ ∧ p₂.taken q₂ = p.taken q
        ∧ q₂.data.drop q₂.position.toNat = rest)
      ∧ (¬ item.Admits rest → ∃ e q₂, call.read p₂ = .error e q₂)

/-! ## One call -/

/-- What a cursor took between two parsers are the bytes between their positions. -/
lemma taken_of_took {bytes : Bytes} (took : p.cursor.Took bytes q.cursor) : p.taken q = bytes := by
  have pos : q.position.toNat = p.position.toNat + bytes.length := took.pos
  have rest : p.data.drop p.position.toNat = bytes ++ q.cursor.rest := took.rest
  rw [taken, rest, pos, Nat.add_sub_cancel_left, List.take_left]

/-- A parser over the same data at the same cursor is the same. -/
lemma eq_of_cursor (data : q.data = p.data) (same : q.cursor = p.cursor) : q = p := by
  obtain ⟨_, _, _⟩ := p
  obtain ⟨_, _, _⟩ := q
  cases data
  cases UInt64.toNat_inj.1 (congrArg Cursor.pos same)
  rfl

/-- What a read makes of the bytes that it took before. -/
def Call.Settles (r : Reader Item) : Prop :=
  ∀ c item c', r c = .ok item c' → ∃ bytes, c.Took bytes c' ∧ ∀ pos rest,
    (item.Admits rest → r ⟨pos, bytes ++ rest⟩ = .ok item ⟨pos + bytes.length, rest⟩)
      ∧ (¬ item.Admits rest → ∃ e c', r ⟨pos, bytes ++ rest⟩ = .error e c')

/-- A local read settles items that anything may follow. -/
lemma Call.settles_of_local {α : Type} {r : Reader α} {g : α → Item} (hr : r.Local)
    (admits : ∀ a rest, (g a).Admits rest) : Settles (g <$> r) := by
  intro c item c' h
  obtain ⟨bytes, took, reads⟩ := hr.map g c item c' h
  refine ⟨bytes, took, fun pos rest => ⟨fun _ => reads pos rest, fun refuses => ?_⟩⟩
  rw [map_eq_pure_bind] at h
  obtain ⟨a, c₁, _, h⟩ := edit_bind_eq_ok.1 h
  cases h
  exact absurd (admits a rest) refuses

lemma Call.settles_reader (call : Call) : Settles call.reader := by
  cases call with
  | scalar type =>
    exact settles_of_local ((Reader.local_take _).map ofLittleEndian) fun _ _ => trivial
  | compressed => exact settles_of_local Reader.local_compressed fun _ _ => trivial
  | count =>
    intro c item c' h
    rw [reader, map_eq_pure_bind] at h ⊢
    obtain ⟨n, c₁, read, h⟩ := edit_bind_eq_ok.1 h
    cases h
    obtain ⟨bytes, took, reads, _⟩ := Reader.took_of_count read
    have small : n < UInt64.size :=
      Nat.lt_of_le_of_lt (Reader.gives_count c n c' read) (by decide)
    have word : (UInt64.ofNat n).toNat = n := UInt64.toNat_ofNat_of_lt' small
    refine ⟨bytes, took, fun pos rest => ⟨fun enough => ?_, fun few => ?_⟩⟩
    · have enough : n ≤ rest.length := word ▸ enough
      rw [bind_of_ok (Reader.count_of_le reads enough)]
      rfl
    · have few : rest.length < n := word ▸ Nat.not_le.1 few
      obtain ⟨e, c', refused⟩ : ∃ e c', Reader.count ⟨pos, bytes ++ rest⟩ = .error e c' :=
        Reader.count_of_lt reads few
      exact ⟨e, c', bind_of_error refused⟩
  | row => exact settles_of_local Reader.local_row fun _ _ => trivial
  | sevenBit => exact settles_of_local Reader.local_sevenBit fun _ _ => trivial
  | string => exact settles_of_local Reader.local_string fun _ _ => trivial
  | bytes length => exact settles_of_local (Reader.local_take _) fun _ _ => trivial

/-- Every call of a parser in bounds is sound. -/
theorem Call.sound (call : Call) (bounds : p.InBounds) : call.Sound p where
  inRange q h := by
    obtain ⟨_, same, _⟩ := call.follows.read_of_error bounds h
    cases same
  onward := by
    cases run : call.read p with
    | ok item q =>
      obtain ⟨_, _, _, onward⟩ := call.follows.read_of_ok bounds run
      exact onward
    | error e q =>
      obtain ⟨_, _, _, onward⟩ := call.follows.read_of_error bounds run
      exact onward
  whole e q form h := by
    obtain ⟨cause, _, refused, onward⟩ := call.follows.read_of_error bounds h
    refine eq_of_cursor onward.data ?_
    obtain ⟨type, rfl⟩ | ⟨length, rfl⟩ := form
    · rw [reader, map_eq_pure_bind, edit_bind_pure_eq_error, Reader.unsigned, map_eq_pure_bind,
        edit_bind_pure_eq_error] at refused
      exact Reader.take_keeps refused
    · rw [reader, map_eq_pure_bind, edit_bind_pure_eq_error] at refused
      exact Reader.take_keeps refused
  settled item q h p₂ bounds₂ rest there := by
    -- From the one parser to the read at its cursor, to the other cursor, and back to the other parser.
    obtain ⟨_, rfl, read, _⟩ := call.follows.read_of_ok bounds h
    obtain ⟨bytes, took, settles⟩ := settles_reader call _ _ _ read
    rw [taken_of_took took] at there ⊢
    have cursor : p₂.cursor = ⟨p₂.position.toNat, bytes ++ rest⟩ := congrArg _ there
    refine ⟨fun admits => ?_, fun refuses => ?_⟩
    · have read := (settles p₂.position.toNat rest).1 admits
      rw [← cursor] at read
      obtain ⟨_, q₂, run, rfl, moved, _⟩ := call.follows.of_read_ok bounds₂ read
      have took₂ : p₂.cursor.Took bytes q₂.cursor := by
        rw [moved]
        exact ⟨there, rfl⟩
      exact ⟨q₂, run, taken_of_took took₂, congrArg Cursor.rest moved⟩
    · obtain ⟨cause, c', refused⟩ := (settles p₂.position.toNat rest).2 refuses
      rw [← cursor] at refused
      obtain ⟨q₂, run, _⟩ := call.follows.of_read_error bounds₂ refused
      exact ⟨_, q₂, run⟩

/-! ## Calls one after another -/

/-- Calls lead from one parser to another, whether they give something or not. -/
inductive Leads (p : Parser) : Parser → Prop
  | refl : Leads p p
  | call {q : Parser} (call : Call) :
    Leads p q →
    Leads p (after (call.read q))

/-- However many calls there are, they do not move back, nor past the end. -/
lemma Leads.onward (bounds : p.InBounds) (h : p.Leads q) : p.Onward q := by
  induction h with
  | refl => exact .refl bounds
  | call call _ ih => exact ih.trans (call.sound ih.inBounds).onward

/-- After any calls, failed ones too, the position does not lie past the end, what is left is what lies
behind it, no further calls move back, and each further call is sound. -/
theorem Leads.within_bounds (h : (new data addressable).Leads p) (further : p.Leads p') :
    p.data = data
      ∧ p.position.toNat ≤ data.length
      ∧ p.remaining.toNat = data.length - p.position.toNat
      ∧ p.position ≤ p'.position
      ∧ ∀ call : Call, call.Sound p := by
  have start : (new data addressable).InBounds := Nat.zero_le _
  obtain ⟨same, _, bounds⟩ := h.onward start
  have same : p.data = data := same
  refine ⟨same, same ▸ bounds, same ▸ toNat_remaining bounds, ?_, fun call => call.sound bounds⟩
  exact UInt64.le_iff_toNat_le.2 (further.onward bounds).forward

end Parser

namespace Example

/-- A byte, and the first three bytes of an integer of four. -/
def cutShort : Bytes :=
  [0x07, 0xC0, 0x00, 0x01]

/-- The parser in front of these bytes. -/
def atByte : Parser :=
  .new cutShort (by decide)

/-- The parser behind them, where there is no byte left. -/
def atEnd : Parser :=
  { atByte with position := 4 }

/-- The read of the integer fails at the end of the data, and a read of a byte then leaves the parser there. -/
theorem cutShort_within : atByte.Leads atEnd ∧ atEnd.remaining.toNat = 0
    ∧ after (Parser.Call.read (.scalar .uint8) atEnd) = atEnd := by
  have reached : atByte.Leads atEnd := .call .compressed (.call (.scalar .uint8) .refl)
  obtain ⟨_, _, left, _, sound⟩ := Parser.Leads.within_bounds reached .refl
  exact ⟨reached, left, (sound (.scalar .uint8)).whole _ _ (.inl ⟨_, rfl⟩) rfl⟩

end Example

end HookWeave

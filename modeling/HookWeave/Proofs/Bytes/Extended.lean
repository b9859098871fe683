import HookWeave.Proofs.Bytes.Gives
import HookWeave.Proofs.Bytes.Reads

/-!
# Reads with more data behind

What a read makes of some data it also makes of longer data that start with it. A cursor over the longer
data stands at the same position with as much more behind it (`Cursor.Extended`), and a computation that
goes well from a state goes the same way from a related one (`Respects`). This composes along `>>=`
(`Respects.bind`), for whatever states. A count is the one read that looks at how much is left, and more
data admit what less data do (`respects_count`).
-/

namespace HookWeave

variable {σ α β : Type}

/-- A computation that goes well from a state gives the same from every related state, and the states
that are left are related again. -/
def Respects (R : σ → σ → Prop) (r : EStateM Fault σ α) : Prop :=
  ∀ s t, R s t → ∀ a s', r s = .ok a s' → ∃ t', r t = .ok a t' ∧ R s' t'

section

variable {R : σ → σ → Prop} {r : EStateM Fault σ α} {f : α → EStateM Fault σ β}

lemma Respects.pure (a : α) : Respects R (Pure.pure a : EStateM Fault σ α) := by
  intro s t related a' s' goes
  cases goes
  exact ⟨t, rfl, related⟩

lemma Respects.bind (hr : Respects R r) (hf : ∀ a, Respects R (f a)) : Respects R (r >>= f) := by
  intro s t related b s' goes
  obtain ⟨a, s₁, first, second⟩ := edit_bind_eq_ok.1 goes
  obtain ⟨t₁, first', related⟩ := hr s t related a s₁ first
  obtain ⟨t', second', related⟩ := hf a s₁ t₁ related b s' second
  exact ⟨t', (bind_of_ok first').trans second', related⟩

lemma Respects.map (g : α → β) (hr : Respects R r) : Respects R (g <$> r) := by
  rw [map_eq_pure_bind]
  exact hr.bind fun a => .pure (g a)

lemma respects_throw (e : Fault) : Respects R (throw e : EStateM Fault σ α) := by
  intro s t related a s' goes
  cases goes

lemma Respects.ite {c : Prop} [Decidable c] {r' : EStateM Fault σ α} (h : Respects R r)
    (h' : Respects R r') : Respects R (if c then r else r') := by
  split
  · exact h
  · exact h'

end

/-- The second cursor stands in longer data, at the position of the first. The data of the first are of
that size. -/
structure Cursor.Extended (size : Nat) (more : Bytes) (c d : Cursor) : Prop where
  size : c.size = size
  eq : d = ⟨c.pos, c.rest ++ more⟩

namespace Reader

variable {size : Nat} {more : Bytes} {r : Reader α} {f : α → Reader β}

/-! ## Runs of bytes and integers -/

lemma respects_take (n : Nat) : Respects (Cursor.Extended size more) (take n) := by
  rintro c d ⟨rfl, rfl⟩ bytes c' goes
  unfold take at goes
  split at goes
  · next _ back split =>
    cases goes
    obtain ⟨rfl, whole⟩ := of_splitExact?_eq_some split
    refine ⟨⟨c.pos + bytes.length, back ++ more⟩, ?_, ?_, rfl⟩
    · unfold take
      rw [whole, List.append_assoc, splitExact?_append]
    · unfold Cursor.size
      rw [whole, List.length_append, Nat.add_assoc]
  · cases goes

lemma respects_uint8 : Respects (Cursor.Extended size more) uint8 := by
  rintro ⟨pos, bytes⟩ d ⟨rfl, rfl⟩ b c' goes
  cases bytes with
  | nil => cases goes
  | cons b bytes =>
    cases goes
    refine ⟨_, rfl, ?_, rfl⟩
    exact Nat.add_right_comm pos 1 bytes.length

lemma respects_malformed (cause : Malformation) :
    Respects (Cursor.Extended size more) (malformed cause : Reader α) :=
  respects_throw _

/-- A read that is refused under a condition. -/
lemma respects_guard {c : Prop} [Decidable c] {cause : Malformation}
    (h : Respects (Cursor.Extended size more) r) :
    Respects (Cursor.Extended size more) (if c then (do let _ : PUnit ← malformed cause; r) else r) :=
  .ite ((respects_malformed cause).bind fun _ => h) h

lemma respects_ofExcept (x : Except Fault α) :
    Respects (Cursor.Extended size more) (ofExcept x) := by
  cases x with
  | ok a => exact .pure a
  | error e => exact respects_throw e

lemma respects_position : Respects (Cursor.Extended size more) position := by
  rintro c d ⟨rfl, rfl⟩ p c' goes
  cases goes
  exact ⟨_, rfl, rfl, rfl⟩

lemma respects_unsigned (width : Nat) : Respects (Cursor.Extended size more) (unsigned width) :=
  (respects_take width).map ofLittleEndian

lemma respects_uint16 : Respects (Cursor.Extended size more) uint16 :=
  (respects_unsigned 2).map UInt16.ofNat

lemma respects_uint32 : Respects (Cursor.Extended size more) uint32 :=
  (respects_unsigned 4).map UInt32.ofNat

lemma respects_int32 : Respects (Cursor.Extended size more) int32 :=
  respects_uint32.map UInt32.toInt32

lemma respects_compressed : Respects (Cursor.Extended size more) compressed := by
  refine respects_uint8.bind fun lead => ?_
  refine .ite (.pure _) (.ite ?_ (.ite ?_ (respects_malformed _)))
  · exact respects_uint8.bind fun low => .pure _
  · refine respects_uint8.bind fun high => respects_uint8.bind fun middle => ?_
    exact respects_uint8.bind fun low => .pure _

/-- As many elements as fit the data fit longer data. -/
lemma respects_count : Respects (Cursor.Extended size more) count := by
  refine respects_compressed.bind fun n => ?_
  rintro c d ⟨rfl, rfl⟩ a c' goes
  rw [get_bind] at goes ⊢
  split at goes
  · cases goes
  · next fits =>
    cases goes
    have fits' : ¬ (⟨c.pos, c.rest ++ more⟩ : Cursor).remaining < n := by
      unfold Cursor.remaining at fits ⊢
      rw [List.length_append]
      omega
    rw [if_neg fits']
    exact ⟨_, rfl, rfl, rfl⟩

lemma respects_row : Respects (Cursor.Extended size more) row := by
  refine respects_compressed.bind fun n => ?_
  cases n with
  | zero => exact .pure none
  | succ n => exact .pure (some n)

lemma respects_groups (left done : Nat) : Respects (Cursor.Extended size more) (groups left done) := by
  induction left generalizing done with
  | zero => exact respects_malformed _
  | succ left ih =>
    refine respects_uint8.bind fun b => .ite (.pure _) ?_
    exact (ih (done + 1)).bind fun high => .pure _

lemma respects_sevenBit : Respects (Cursor.Extended size more) sevenBit :=
  (respects_groups 5 0).map (· % UInt32.size)

/-! ## Strings, lists and values in bytes of their own -/

lemma respects_string : Respects (Cursor.Extended size more) string := by
  refine respects_sevenBit.bind fun n => respects_position.bind fun start => ?_
  refine (respects_take n).bind fun bytes => ?_
  split
  · exact .pure _
  · exact respects_malformed _

lemma respects_times (hr : Respects (Cursor.Extended size more) r) (n : Nat) :
    Respects (Cursor.Extended size more) (times r n) := by
  induction n with
  | zero => exact .pure []
  | succ n ih => exact hr.bind fun a => ih.bind fun as => .pure (a :: as)

lemma respects_list (hr : Respects (Cursor.Extended size more) r) :
    Respects (Cursor.Extended size more) (list r) :=
  respects_count.bind fun n => respects_times hr n

/-- What is read in bytes of its own does not see what follows them. -/
lemma respects_blob (what : String) (r : Reader α) :
    Respects (Cursor.Extended size more) (blob what r) := by
  refine respects_count.bind fun n => (respects_take n).bind fun bytes => ?_
  split
  · exact .ite (respects_malformed _) (.pure _)
  · exact respects_throw _

end Reader

end HookWeave

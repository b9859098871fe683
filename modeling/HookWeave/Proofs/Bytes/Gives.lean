import HookWeave.Image.Reading
import HookWeave.Proofs.Outcomes
import HookWeave.Proofs.Text.Utf8

/-!
# What reads can give

`Reader.Gives r P` says that whatever the read `r` gives, on any data, has the property `P`. Such
facts compose along `>>=` (`Gives.bind`). They bound what data can hold: no compressed integer is
too large to be written again (`gives_compressed`), no string too long (`gives_string`), no list too
long to be counted (`gives_list`).
-/

namespace HookWeave

/-- The string takes few enough bytes to be written. -/
def Text.Short (s : String) : Prop :=
  (Text.utf8 s).length < UInt32.size

instance (s : String) : Decidable (Text.Short s) :=
  inferInstanceAs (Decidable (_ < _))

/-- The list has few enough elements to be counted, all of them with the property. -/
def Countable {α : Type} (P : α → Prop) (as : List α) : Prop :=
  as.length ≤ Encoding.maxCompressed ∧ ∀ a ∈ as, P a

lemma Countable.imp {α : Type} {P P' : α → Prop} {as : List α} (h : Countable P as)
    (weaker : ∀ a ∈ as, P a → P' a) : Countable P' as :=
  ⟨h.1, fun a ha => weaker a ha (h.2 a ha)⟩

namespace Reader

variable {α β : Type} {r : Reader α} {f : α → Reader β} {P P' : α → Prop} {Q : β → Prop} {a : α}
  {n : Nat}

/-- Whatever the read gives has the property. -/
def Gives (r : Reader α) (P : α → Prop) : Prop :=
  ∀ c a c', r c = .ok a c' → P a

/-! ## Composition -/

lemma gives_anything (r : Reader α) : r.Gives fun _ => True :=
  fun _ _ _ _ => trivial

lemma Gives.imp (h : r.Gives P) (weaker : ∀ a, P a → P' a) : r.Gives P' :=
  fun c a c' read => weaker a (h c a c' read)

lemma Gives.pure (h : P a) : (Pure.pure a : Reader α).Gives P := by
  intro c a' c' read
  cases read
  exact h

lemma Gives.bind (hr : r.Gives P) (hf : ∀ a, P a → (f a).Gives Q) : (r >>= f).Gives Q := by
  intro c b c' read
  obtain ⟨a, c₁, first, second⟩ := edit_bind_eq_ok.1 read
  exact hf a (hr c a c₁ first) c₁ b c' second

/-- A read whose result is of no importance to what follows. -/
lemma Gives.after (hf : ∀ a, (f a).Gives Q) : (r >>= f).Gives Q :=
  (gives_anything r).bind fun a _ => hf a

lemma Gives.map {g : α → β} (hr : r.Gives P) (hg : ∀ a, P a → Q (g a)) : (g <$> r).Gives Q := by
  intro c b c' read
  have read : EStateM.map g r c = .ok b c' := read
  rw [EStateM.map] at read
  cases first : r c with
  | ok a c₁ =>
    rw [first] at read
    cases read
    exact hg a (hr c a _ first)
  | error e c₁ =>
    rw [first] at read
    cases read

lemma gives_throw (e : Fault) : (throw e : Reader α).Gives P := by
  intro c a c' read
  cases read

lemma gives_malformed (cause : Malformation) : (malformed cause : Reader α).Gives P :=
  gives_throw _

/-- A read that is refused under a condition. -/
lemma gives_guard {c : Prop} [Decidable c] {cause : Malformation} (h : r.Gives P) :
    (if c then (do let _ : PUnit ← malformed cause; r) else r).Gives P := by
  split
  · exact (gives_malformed (P := fun _ => True) cause).bind fun _ _ => h
  · exact h

/-- A result that may be a fault. -/
lemma gives_ofExcept {x : Except Fault α} (h : ∀ a, x = .ok a → P a) : (ofExcept x).Gives P := by
  cases x with
  | ok a => exact .pure (h a rfl)
  | error e => exact gives_throw e

/-! ## Integers -/

/-- As many bytes as there were to be are split off, and with what is left they are all there was. -/
lemma of_splitExact?_eq_some {bytes front back : Bytes}
    (h : splitExact? n bytes = some (front, back)) : front.length = n ∧ bytes = front ++ back := by
  induction n generalizing bytes front with
  | zero =>
    cases h
    exact ⟨rfl, rfl⟩
  | succ n ih =>
    cases bytes with
    | nil => cases h
    | cons b bytes =>
      rw [splitExact?, Option.map_eq_some_iff] at h
      obtain ⟨⟨front', back'⟩, split, same⟩ := h
      cases same
      obtain ⟨length, rfl⟩ := ih split
      exact ⟨congrArg (· + 1) length, rfl⟩

lemma gives_take (n : Nat) : (take n).Gives fun bytes => bytes.length = n := by
  intro c bytes c' read
  unfold take at read
  split at read
  · next split =>
    cases read
    exact (of_splitExact?_eq_some split).1
  · cases read

/-- A compressed integer has at most 29 bits, in whatever form. -/
lemma gives_compressed : compressed.Gives (· ≤ Encoding.maxCompressed) := by
  refine (gives_anything uint8).bind fun lead _ => ?_
  have lead_lt := lead.toNat_lt
  dsimp only
  split
  · exact .pure (by unfold Encoding.maxCompressed; omega)
  · split
    · refine .after fun low => .pure ?_
      have low_lt := low.toNat_lt
      unfold Encoding.maxCompressed
      omega
    · split
      · refine .after fun high => .after fun middle => .after fun low => .pure ?_
        have high_lt := high.toNat_lt
        have middle_lt := middle.toNat_lt
        have low_lt := low.toNat_lt
        unfold Encoding.maxCompressed
        omega
      · exact gives_malformed _

lemma gives_count : count.Gives (· ≤ Encoding.maxCompressed) := by
  refine gives_compressed.bind fun n small => .after fun c => ?_
  split
  · exact gives_malformed _
  · exact .pure small

lemma gives_sevenBit : sevenBit.Gives (· < UInt32.size) :=
  (gives_anything _).map fun n _ => Nat.mod_lt n (by decide)

/-! ## Strings, lists and values in bytes of their own -/

lemma gives_string : string.Gives Text.Short := by
  refine gives_sevenBit.bind fun size small => .after fun start => ?_
  refine (gives_take size).bind fun bytes length => ?_
  split
  · next s decoded =>
    refine .pure ?_
    have le := Text.length_utf8_le decoded
    unfold Text.Short
    omega
  · exact gives_malformed _

lemma gives_times (hr : r.Gives P) (n : Nat) :
    (times r n).Gives fun as => as.length = n ∧ ∀ a ∈ as, P a := by
  induction n with
  | zero =>
    refine .pure ⟨rfl, fun a ha => ?_⟩
    cases ha
  | succ n ih =>
    refine hr.bind fun a first => ih.bind fun as others => .pure ?_
    refine ⟨congrArg (· + 1) others.1, fun b hb => ?_⟩
    cases hb with
    | head => exact first
    | tail _ hb => exact others.2 b hb

/-- A list has no more elements than can be counted. -/
lemma gives_list (hr : r.Gives P) : (list r).Gives (Countable P) :=
  gives_count.bind fun n small => (gives_times hr n).imp fun _ read => ⟨read.1 ▸ small, read.2⟩

lemma gives_blob {what : String} (hr : r.Gives P) : (blob what r).Gives P := by
  refine .after fun size => .after fun bytes => ?_
  split
  · next a c read =>
    split
    · exact gives_malformed _
    · exact .pure (hr _ a c read)
  · exact gives_throw _

end Reader
end HookWeave

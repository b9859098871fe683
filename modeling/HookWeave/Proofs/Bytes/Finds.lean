import HookWeave.Image.Reading
import HookWeave.Image.Writing
import HookWeave.Proofs.Bytes.Reads
import HookWeave.Proofs.Outcomes

/-!
# What reads can find

`Reader.Finds r bytes P` says that the read `r` makes nothing of these bytes but what has the property
`P`: it may be refused, but if it goes well then it took exactly these bytes, whatever follows. A read
that is known to go well is such a read (`Reads.finds`). Unlike `Reads`, this composes along `>>=`
without a proof that the first part is not refused (`Finds.bind`), so it can be stated of everything
that is written.
-/

namespace HookWeave
namespace Reader

variable {α β : Type} {r : Reader α} {f : α → Reader β} {P P' : α → Prop} {Q : β → Prop} {a : α}
  {s t bytes out : Bytes}

/-- If the read goes well on these bytes, whatever follows, then it takes exactly these bytes and gives
what has the property. -/
def Finds (r : Reader α) (bytes : Bytes) (P : α → Prop) : Prop :=
  ∀ pos rest a c, r ⟨pos, bytes ++ rest⟩ = .ok a c → P a ∧ c = ⟨pos + bytes.length, rest⟩

/-- On these bytes, at some place and with something behind them, the read gives this. -/
def Gave (r : Reader α) (bytes : Bytes) (a : α) : Prop :=
  ∃ pos rest c, r ⟨pos, bytes ++ rest⟩ = .ok a c

/-! ## Composition -/

/-- A read that goes well finds what it gives. -/
lemma Reads.finds (h : r.Reads bytes a) : r.Finds bytes (· = a) := by
  intro pos rest a' c read
  cases (h pos rest).symm.trans read
  exact ⟨rfl, rfl⟩

/-- What was given is what is found. -/
lemma Finds.of_gave (h : r.Finds bytes P) (gave : r.Gave bytes a) : P a := by
  obtain ⟨pos, rest, c, read⟩ := gave
  exact (h pos rest a c read).1

/-- What is found was given. -/
lemma Finds.gave (h : r.Finds bytes P) : r.Finds bytes (r.Gave bytes) := by
  intro pos rest a c read
  exact ⟨⟨pos, rest, c, read⟩, (h pos rest a c read).2⟩

lemma Finds.imp (h : r.Finds bytes P) (weaker : ∀ a, P a → P' a) : r.Finds bytes P' := by
  intro pos rest a c read
  obtain ⟨found, took⟩ := h pos rest a c read
  exact ⟨weaker a found, took⟩

lemma Finds.pure (h : P a) : (Pure.pure a : Reader α).Finds [] P :=
  Reads.pure.finds.imp fun _ same => same ▸ h

/-- What is found by the first of two reads is at hand for the second. -/
lemma Finds.bind (hr : r.Finds s P) (hf : ∀ a, P a → (f a).Finds t Q) :
    (r >>= f).Finds (s ++ t) Q := by
  intro pos rest b c read
  rw [List.append_assoc] at read
  obtain ⟨a, c₁, first, second⟩ := edit_bind_eq_ok.1 read
  obtain ⟨found, rfl⟩ := hr pos (t ++ rest) a c₁ first
  obtain ⟨found', rfl⟩ := hf a found _ rest b c second
  refine ⟨found', ?_⟩
  rw [List.length_append, Nat.add_assoc]

/-- A read that goes well is followed by one that finds something. -/
lemma Reads.bind_finds (hr : r.Reads s a) (hf : (f a).Finds t Q) : (r >>= f).Finds (s ++ t) Q :=
  hr.finds.bind fun _ same => same ▸ hf

/-- A read that is followed by one that takes no bytes. -/
lemma Finds.bind_nil (hr : r.Finds bytes P) (hf : ∀ a, P a → (f a).Finds [] Q) :
    (r >>= f).Finds bytes Q := by
  have h := hr.bind hf
  rw [List.append_nil] at h
  exact h

/-- The last read of a sequence, whose result makes the result of all. -/
lemma Finds.bind_pure {g : α → β} (hr : r.Finds bytes P) (hg : ∀ a, P a → Q (g a)) :
    (r >>= fun a => Pure.pure (g a)).Finds bytes Q :=
  hr.bind_nil fun a found => .pure (hg a found)

lemma Finds.map {g : α → β} (hr : r.Finds bytes P) (hg : ∀ a, P a → Q (g a)) :
    (g <$> r).Finds bytes Q := by
  rw [map_eq_pure_bind]
  exact hr.bind_pure hg

lemma finds_throw (e : Fault) : (throw e : Reader α).Finds bytes P := by
  intro pos rest a c read
  cases read

/-- What is refused finds nothing. -/
lemma finds_malformed (cause : Malformation) : (malformed cause : Reader α).Finds bytes P :=
  finds_throw _

/-- A read that is refused under a condition. -/
lemma finds_guard {c : Prop} [Decidable c] {cause : Malformation} (h : ¬ c → r.Finds bytes P) :
    (if c then (do let _ : PUnit ← malformed cause; r) else r).Finds bytes P := by
  by_cases refused : c
  · rw [if_pos refused]
    intro pos rest a c read
    cases read
  · rw [if_neg refused]
    exact h refused

/-! ## Counts, lists and values in bytes of their own -/

/-- A count finds the number that was written, however much data follows. -/
lemma finds_count {n : Nat} (h : Encoding.count n = .ok bytes) : count.Finds bytes (· = n) := by
  refine (reads_compressed (compressed_of_count h)).finds.bind_nil fun m same => ?_
  intro pos rest k c read
  rw [get_bind] at read
  split at read
  · cases read
  · cases read
    exact ⟨same, rfl⟩

/-- Reads one after another find what each of them finds. -/
lemma finds_times {R : β → α → Prop} {as : List β} {pieces : List Bytes}
    (each : List.Forall₂ (fun a out => r.Finds out (R a)) as pieces) :
    (times r as.length).Finds pieces.flatten (List.Forall₂ R as) := by
  induction each with
  | nil => exact .pure .nil
  | cons first _ ih =>
    refine first.bind fun a found => ih.bind_pure fun as others => ?_
    exact .cons found others

/-- A list finds what each of its elements finds. -/
lemma finds_list {R : β → α → Prop} {as : List β} {pieces : List Bytes} {count : Bytes}
    (h : Encoding.count as.length = .ok count)
    (each : List.Forall₂ (fun a out => r.Finds out (R a)) as pieces) :
    (list r).Finds (count ++ pieces.flatten) (List.Forall₂ R as) :=
  (finds_count h).bind fun _ same => same ▸ finds_times each

/-- A value in bytes of its own is what its read gave there. -/
lemma finds_blob {what : String} (h : Encoding.blob bytes = .ok out) :
    (blob what r).Finds out (r.Gave bytes) := by
  obtain ⟨count, counted, h⟩ := bind_eq_ok.1 h
  cases h
  refine (finds_count counted).bind fun size same => ?_
  cases same
  refine (reads_take bytes).finds.bind_nil fun inner same => ?_
  cases same
  split
  · next a c read =>
    split
    · exact finds_malformed _
    · refine .pure ⟨0, [], c, ?_⟩
      rw [List.append_nil]
      exact read
  · exact finds_throw _

end Reader
end HookWeave

import HookWeave.IndexedTable
import HookWeave.Proofs.Catalog.Tables
import HookWeave.Proofs.Image.Rows

/-!
# Tables with an index

The index of a table leads from each value to the first of its rows, as a search does
(`IndexedTable.Indexed`). That is so for a table that is built of rows, whatever rows are equal, and it stays so
when values are interned, so interning with an index is interning (`IndexedTable.Indexed.intern_eq`). Rows that
were given out are found again for good (`IndexedTable.Reached.names`).
-/

namespace HookWeave
namespace IndexedTable

variable {α : Type} [DecidableEq α] [Hashable α] {t : IndexedTable α} {rows : List α} {a : α} {k : Nat}

/-- The index leads to the first row of each value. -/
def Indexed (t : IndexedTable α) : Prop :=
  ∀ a, t.index[a]? = (t.rows.idxOf? a).map (· + 1)

/-! ## Building -/

lemma indexed_empty : (empty : IndexedTable α).Indexed :=
  fun _ => Std.HashMap.getElem?_empty

/-- A row more leaves equal values where they were. -/
lemma Indexed.append (h : t.Indexed) (a : α) : (t.append a).Indexed := by
  intro b
  show (t.index.insertIfNew a (t.size + 1))[b]? = ((t.rows ++ [a]).idxOf? b).map (· + 1)
  rw [DeclarationIndex.getElem?_insertIfNew, DeclarationIndex.idxOf?_concat, h b, Option.map_or]
  congr 1
  split_ifs <;> rfl

/-- A table that is built of rows has just these, and its index leads to the first of equal ones. -/
lemma indexed_ofRows (rows : List α) : (ofRows rows).Indexed ∧ (ofRows rows).rows = rows := by
  induction rows using List.reverseRecOn with
  | nil => exact ⟨indexed_empty, rfl⟩
  | append_singleton rows a ih =>
    rw [ofRows, List.foldl_append]
    exact ⟨ih.1.append a, congrArg (· ++ [a]) ih.2⟩

/-! ## Interning -/

/-- A value that has a row is found there. -/
lemma Indexed.intern_of_found (h : t.Indexed) (found : t.rows.idxOf? a = some k) :
    t.intern a = (k + 1, t) := by
  rw [intern, h a, found]
  rfl

/-- A value that has none gets the next row, as if it were added. -/
lemma Indexed.intern_of_new (h : t.Indexed) (new : t.rows.idxOf? a = none) :
    t.intern a = (t.size + 1, ⟨t.rows ++ [a], t.index.insert a (t.size + 1)⟩) := by
  rw [intern, h a, new]
  rfl

/-- Interning with the index is interning. -/
lemma Indexed.intern_eq (h : t.Indexed) (a : α) :
    ((t.intern a).1, (t.intern a).2.table) = t.table.intern a := by
  unfold Table.intern
  cases found : t.rows.idxOf? a with
  | some k =>
    rw [h.intern_of_found found, show t.table.rows.idxOf? a = some k from found]
  | none =>
    rw [h.intern_of_new found, show t.table.rows.idxOf? a = none from found]
    rfl

lemma Indexed.intern (h : t.Indexed) (a : α) : (t.intern a).2.Indexed := by
  cases found : t.rows.idxOf? a with
  | some k => exact (h.intern_of_found found).symm ▸ h
  | none =>
    rw [h.intern_of_new found]
    -- An index without the value takes it as if it were added.
    have added (b : α) :
        (t.index.insert a (t.size + 1))[b]? = (t.index.insertIfNew a (t.size + 1))[b]? := by
      rw [Std.HashMap.getElem?_insert, DeclarationIndex.getElem?_insertIfNew]
      by_cases same : a = b
      · subst same
        rw [h a, found, if_pos BEq.rfl, if_pos BEq.rfl]
        rfl
      · rw [if_neg (mt eq_of_beq same), if_neg (mt eq_of_beq same), Option.or_none]
    exact fun b => (added b).trans (h.append a b)

/-- A row that is found stays where it is. -/
lemma Indexed.found_intern (h : t.Indexed) (b : α) (found : t.rows.idxOf? a = some k) :
    (t.intern b).2.rows.idxOf? a = some k := by
  cases known : t.rows.idxOf? b with
  | some j => rw [h.intern_of_found known, found]
  | none =>
    rw [h.intern_of_new known]
    show (t.rows ++ [b]).idxOf? a = _
    rw [DeclarationIndex.idxOf?_concat, found]
    rfl

/-! ## Histories -/

/-- Tables that come of one that is built of rows by interning values, with the values and the rows that they
were given, the latest first. -/
inductive Reached (rows : List α) : List (α × Nat) → IndexedTable α → Prop
  | start : Reached rows [] (ofRows rows)
  | intern {history : List (α × Nat)} {t : IndexedTable α} (a : α) :
    Reached rows history t →
    Reached rows ((a, (t.intern a).1) :: history) (t.intern a).2

/-- What the rows that were given out name. -/
structure Names (t : IndexedTable α) (rows : List α) (history : List (α × Nat)) : Prop where
  /-- The rows that the table was built of stay, equal ones too. -/
  keeps : rows <+: t.rows
  /-- A value is at its row, counted from 1. -/
  names : ∀ e ∈ history, 0 < e.2 ∧ t.rows[e.2 - 1]? = some e.1
  /-- Interned again, a value gets the same row, and the table stays the same. -/
  again : ∀ e ∈ history, t.intern e.1 = (e.2, t)
  /-- Equal values have the same row, and others do not. -/
  injective : ∀ e ∈ history, ∀ e' ∈ history, e.2 = e'.2 ↔ e.1 = e'.1
  /-- The index makes no difference to a search through the rows. -/
  searched : ∀ a, ((t.intern a).1, (t.intern a).2.table) = t.table.intern a

variable {history : List (α × Nat)}

/-- The index stays true, and every row that was given out is the first of its value. -/
lemma Reached.found (h : Reached rows history t) : t.Indexed ∧ rows <+: t.rows
    ∧ ∀ e ∈ history, ∃ k, e.2 = k + 1 ∧ t.rows.idxOf? e.1 = some k := by
  induction h with
  | start =>
    obtain ⟨indexed, same⟩ := indexed_ofRows rows
    exact ⟨indexed, ⟨[], by rw [same, List.append_nil]⟩, List.forall_mem_nil _⟩
  | @intern history t a _ ih =>
    obtain ⟨indexed, keeps, found⟩ := ih
    have interned := indexed.intern_eq a
    have grows := (Table.grows_intern interned.symm).1
    obtain ⟨k, row, here⟩ := Table.idxOf?_intern t.table a
    rw [← interned] at row here
    refine ⟨indexed.intern a, keeps.trans grows, List.forall_mem_cons.2 ⟨⟨k, row, here⟩, ?_⟩⟩
    intro e listed
    obtain ⟨j, row, there⟩ := found e listed
    exact ⟨j, row, indexed.found_intern a there⟩

/-- Rows that were given out name their values for good. -/
lemma Reached.names (h : Reached rows history t) : t.Names rows history := by
  obtain ⟨indexed, keeps, found⟩ := h.found
  have named : ∀ e ∈ history, 0 < e.2 ∧ t.rows[e.2 - 1]? = some e.1 := by
    intro e listed
    obtain ⟨k, row, there⟩ := found e listed
    obtain ⟨bound, same, _⟩ := List.idxOf?_eq_some_iff.1 there
    rw [row]
    refine ⟨Nat.succ_pos k, ?_⟩
    rw [Nat.add_sub_cancel, List.getElem?_eq_getElem bound, same]
  have again : ∀ e ∈ history, t.intern e.1 = (e.2, t) := by
    intro e listed
    obtain ⟨k, row, there⟩ := found e listed
    rw [indexed.intern_of_found there, row]
  refine ⟨keeps, named, again, fun e listed e' listed' => ⟨fun same => ?_, fun same => ?_⟩,
    indexed.intern_eq⟩
  · have first := (named e listed).2
    rw [same, (named e' listed').2] at first
    exact (Option.some.inj first).symm
  · have first := again e listed
    rw [same, again e' listed'] at first
    exact (congrArg Prod.fst first).symm

end IndexedTable
end HookWeave

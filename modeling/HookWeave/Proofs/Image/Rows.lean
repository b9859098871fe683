import HookWeave.Proofs.Image.Mentions
import Mathlib.Data.List.FinRange
import Mathlib.Data.List.Perm.Subperm

/-!
# Rows that stay

What was written once is written the same again, whatever was written in between (`Settles`): tables
grow at their ends only, and a value is found where it was put. So every row of a builder is the
answer to something that asked for it, and to nothing else (`Builder.Within`), and no table has more
rows than there are distinct mentions for it (`Within.size_le`).
-/

namespace HookWeave

namespace Table

variable {α : Type} [DecidableEq α] {t t' later : Table α} {a : α} {row : Nat}

/-- An interned value is found first at its row. -/
lemma idxOf?_intern (t : Table α) (a : α) :
    ∃ k, (t.intern a).1 = k + 1 ∧ (t.intern a).2.rows.idxOf? a = some k := by
  unfold intern
  cases found : t.rows.idxOf? a with
  | some k => exact ⟨k, rfl, found⟩
  | none =>
    refine ⟨t.size, rfl, ?_⟩
    show (t.rows ++ [a]).idxOf? a = _
    rw [List.idxOf?, List.findIdx?_append, ← List.idxOf?, found]
    simp [size]

/-- The row of an interned value has the value. -/
lemma getElem?_intern (t : Table α) (a : α) :
    ∃ k, (t.intern a).1 = k + 1 ∧ (t.intern a).2.rows[k]? = some a :=
  (grows_intern rfl).2

/-- A value that has a row has it in every table that goes on. -/
lemma intern_of_prefix (goes : (t.intern a).2.rows <+: later.rows) :
    later.intern a = ((t.intern a).1, later) := by
  obtain ⟨k, row, found⟩ := idxOf?_intern t a
  obtain ⟨rest, continued⟩ := goes
  have found : later.rows.idxOf? a = some k := by
    rw [← continued, List.idxOf?, List.findIdx?_append, ← List.idxOf?, found]
    rfl
  rw [intern, found, row]

/-- A new value gets the row behind the last. -/
lemma intern_of_new (new : a ∉ t.rows) : t.intern a = (t.size + 1, ⟨t.rows ++ [a]⟩) := by
  rw [intern, List.idxOf?_eq_none_iff.2 new]

/-- A value that is found at a row is the value there. -/
lemma getElem?_of_intern {k : Nat} (row : (t.intern a).1 = k + 1) (kept : (t.intern a).2 = t) :
    t.rows[k]? = some a := by
  obtain ⟨k', row', found⟩ := idxOf?_intern t a
  rw [row] at row'
  cases row'
  rw [kept] at found
  obtain ⟨bound, same, _⟩ := List.idxOf?_eq_some_iff.1 found
  rw [List.getElem?_eq_getElem bound, same]

/-- Interning makes one row at most, the last. -/
lemma size_intern {k : Nat} (h : k < (t.intern a).2.size) :
    k < t.size ∨ k + 1 = (t.intern a).1 := by
  unfold intern at h ⊢
  cases found : t.rows.idxOf? a with
  | some index =>
    rw [found] at h
    exact .inl h
  | none =>
    rw [found] at h
    rw [size, List.length_append, List.length_singleton] at h
    show k < t.rows.length ∨ k + 1 = t.rows.length + 1
    omega

/-- The row of an interned value is one of the table. -/
lemma row_intern (t : Table α) (a : α) :
    ∃ k, (t.intern a).1 = k + 1 ∧ k < (t.intern a).2.size := by
  obtain ⟨k, row, found⟩ := idxOf?_intern t a
  exact ⟨k, row, (List.idxOf?_eq_some_iff.1 found).1⟩

end Table

namespace Image

variable {α β : Type} {b b' b'' : Builder} {row : Nat}

/-! ## What is written the same again -/

namespace Building

/-- What the computation gives, it gives again on every builder that goes on from there, without
adding to it. -/
def Settles (x : Building α) : Prop :=
  ∀ b a b', x b = .ok (a, b') → b.Grows b' ∧ ∀ b'', b'.Grows b'' → x b'' = .ok (a, b'')

lemma Settles.lift (x : Except Fault α) : Settles (liftM x) := by
  intro b a b' h
  obtain ⟨outcome, rfl⟩ := run_lift_eq_ok.1 h
  exact ⟨.refl _, fun _ _ => run_lift_eq_ok.2 ⟨outcome, rfl⟩⟩

lemma Settles.bind {x : Building α} {f : α → Building β} (hx : Settles x)
    (hf : ∀ a, Settles (f a)) : Settles (x >>= f) := by
  intro b c b' h
  obtain ⟨a, b₁, first, second⟩ := run_bind_eq_ok.1 h
  obtain ⟨grows, again⟩ := hx b a b₁ first
  obtain ⟨grows', again'⟩ := hf a b₁ c b' second
  refine ⟨grows.trans grows', fun b'' later => ?_⟩
  exact run_bind_eq_ok.2 ⟨a, b'', again b'' (grows'.trans later), again' b'' later⟩

/-! ## Adding type references -/

lemma interning_lift (x : Except Fault α) : interning (liftM x) = liftM x := by
  funext b
  cases x with
  | ok a => rfl
  | error e => rfl

lemma interning_bind (x : Interning α) (f : α → Interning β) :
    interning (x >>= f) = interning x >>= fun a => interning (f a) := by
  funext b
  show (x b.typeRefs >>= fun p => f p.1 p.2) >>= _ = (x b.typeRefs >>= _) >>= _
  cases x b.typeRefs with
  | ok p => rfl
  | error e => rfl

/-- The row of a type reference. -/
def typeRefRow (t : TypeRef) : Building Nat :=
  interning t.intern

lemma interning_encodeRef (t : TypeRef) :
    interning t.encode = typeRefRow t >>= fun row => liftM (Encoding.compressed row) := by
  rw [TypeRef.encode, interning_bind]
  exact congrArg (typeRefRow t >>= ·) (funext fun row => interning_lift _)

/-! ## Rows -/

lemma typeRefRow_eq (t : TypeRef) (b : Builder) :
    typeRefRow t b
      = .ok ((b.typeRefs.intern t).1, { b with typeRefs := (b.typeRefs.intern t).2 }) :=
  rfl

lemma settles_typeRefRow (t : TypeRef) : Settles (typeRefRow t) := by
  intro b row b' h
  rw [typeRefRow_eq] at h
  cases h
  have grows := (Table.grows_intern (t := b.typeRefs) (a := t) rfl).1
  refine ⟨⟨List.prefix_refl _, grows, List.prefix_refl _, List.prefix_refl _⟩, fun b'' later => ?_⟩
  rw [typeRefRow_eq, Table.intern_of_prefix later.typeRefs]

lemma settles_stringRow (s : String) : Settles (stringRow s) := by
  intro b row b' h
  rw [stringRow_eq] at h
  cases h
  have grows := (Table.grows_intern (t := b.strings) (a := s) rfl).1
  refine ⟨⟨grows, List.prefix_refl _, List.prefix_refl _, List.prefix_refl _⟩, fun b'' later => ?_⟩
  rw [stringRow_eq, Table.intern_of_prefix later.strings]

lemma settles_typeSpecRow (bytes : Bytes) : Settles (typeSpecRow bytes) := by
  intro b row b' h
  rw [typeSpecRow_eq] at h
  cases h
  have grows := (Table.grows_intern (t := b.typeSpecs) (a := bytes) rfl).1
  refine ⟨⟨List.prefix_refl _, List.prefix_refl _, grows, List.prefix_refl _⟩, fun b'' later => ?_⟩
  rw [typeSpecRow_eq, Table.intern_of_prefix later.typeSpecs]

lemma settles_memberRow (bytes : Bytes) : Settles (memberRow bytes) := by
  intro b row b' h
  rw [memberRow_eq] at h
  cases h
  have grows := (Table.grows_intern (t := b.members) (a := bytes) rfl).1
  refine ⟨⟨List.prefix_refl _, List.prefix_refl _, List.prefix_refl _, grows⟩, fun b'' later => ?_⟩
  rw [memberRow_eq, Table.intern_of_prefix later.members]

/-! ## Signatures and references -/

/-- What holds of a computation that leaves the tables or takes one row, and of one after another. -/
structure Composes (C : (α : Type) → Building α → Prop) : Prop where
  lift : ∀ {α : Type} (x : Except Fault α), C α (liftM x)
  bind : ∀ {α β : Type} {x : Building α} {f : α → Building β},
    C α x → (∀ a, C β (f a)) → C β (x >>= f)
  typeRefRow : ∀ t, C Nat (typeRefRow t)
  stringRow : ∀ s, C Nat (stringRow s)
  typeSpecRow : ∀ bytes, C Nat (typeSpecRow bytes)
  memberRow : ∀ bytes, C Nat (memberRow bytes)

namespace Composes

variable {C : (α : Type) → Building α → Prop} (holds : Composes C)
include holds

lemma pure (a : α) : C α (Pure.pure a) :=
  holds.lift (.ok a)

lemma typeRef (t : TypeRef) : C Bytes (interning t.encode) := by
  rw [interning_encodeRef]
  exact holds.bind (holds.typeRefRow t) fun row => holds.lift _

lemma type (t : TypeSig) : C Bytes (interning t.encode) := by
  induction t with
  | prim p => exact holds.pure _
  | refType t => exact interning_bind t.encode _ ▸ holds.bind (holds.typeRef t) fun _ => holds.pure _
  | valueType t => exact interning_bind t.encode _ ▸ holds.bind (holds.typeRef t) fun _ => holds.pure _
  | byRef t ih => exact interning_bind t.encode _ ▸ holds.bind ih fun _ => holds.pure _
  | array t ih => exact interning_bind t.encode _ ▸ holds.bind ih fun _ => holds.pure _

lemma types (ts : List TypeSig) : C Bytes (interning (TypeSig.encodeList ts)) := by
  induction ts with
  | nil => exact holds.pure _
  | cons t ts ih =>
    rw [TypeSig.encodeList, interning_bind]
    refine holds.bind (holds.type t) fun front => ?_
    rw [interning_bind]
    exact holds.bind ih fun back => holds.pure _

lemma signature (s : MethodSig) : C Bytes (interning s.encode) := by
  rw [MethodSig.encode, interning_bind, interning_lift]
  refine holds.bind (holds.lift _) fun count => ?_
  rw [interning_bind]
  refine holds.bind (holds.type s.ret) fun ret => ?_
  rw [interning_bind]
  exact holds.bind (holds.types s.params) fun params => holds.pure _

lemma fieldSig (t : TypeSig) : C Bytes (interning t.encodeField) := by
  rw [TypeSig.encodeField, interning_bind]
  exact holds.bind (holds.type t) fun _ => holds.pure _

lemma member (kind : MemberKind) (owner : TypeRef) (name : String) (sig : Bytes) :
    C Nat (member kind owner name sig) :=
  holds.bind (holds.typeRef owner) fun _ => holds.bind (holds.lift _) fun _ =>
    holds.bind (holds.lift _) fun _ => holds.memberRow _

/-- What holds of every row that is taken holds of the row of a reference. -/
lemma rowOf (r : Reference) : C Nat (rowOf r) := by
  cases r with
  | method m => exact holds.bind (holds.signature m.sig) fun _ => holds.member _ _ _ _
  | field f => exact holds.bind (holds.fieldSig f.type) fun _ => holds.member _ _ _ _
  | type t => exact holds.bind (holds.type t) fun _ => holds.typeSpecRow _
  | string s => exact holds.stringRow s

end Composes

lemma settles : Composes fun _ x => Settles x :=
  ⟨.lift, .bind, settles_typeRefRow, settles_stringRow, settles_typeSpecRow, settles_memberRow⟩

lemma settles_rowOf (r : Reference) : Settles (rowOf r) :=
  settles.rowOf r

end Building

/-! ## Whom the rows of a builder answer -/

namespace Builder

/-- The number of rows of a table. -/
def size (b : Builder) : TableKind → Nat
  | .strings => b.strings.size
  | .typeRefs => b.typeRefs.size
  | .typeSpecs => b.typeSpecs.size
  | .members => b.members.size

/-- What is mentioned has the row, for good. -/
def Answers (b : Builder) (row : Nat) : Mention → Prop
  | .typeRef t => ∀ b', b.Grows b' → Building.typeRefRow t b' = .ok (row, b')
  | .reference r => ∀ b', b.Grows b' → Building.rowOf r b' = .ok (row, b')
  | .signature _ => False

/-- Every row of the builder answers one of the mentions. -/
def Within (b : Builder) (mentions : List Mention) : Prop :=
  ∀ table k, k < b.size table → ∃ e ∈ mentions, e.table? = some table ∧ b.Answers (k + 1) e

variable {mentions : List Mention} {e : Mention} {table : TableKind}

lemma Answers.of_grows (h : b.Answers row e) (grows : b.Grows b') : b'.Answers row e := by
  cases e with
  | typeRef t => exact fun b'' later => h b'' (grows.trans later)
  | reference r => exact fun b'' later => h b'' (grows.trans later)
  | signature s => exact h

/-- What is mentioned has one row only. -/
lemma Answers.unique {row' : Nat} (h : b.Answers row e) (h' : b.Answers row' e) : row = row' := by
  cases e with
  | typeRef t =>
    have same := (h b (.refl b)).symm.trans (h' b (.refl b))
    cases same
    rfl
  | reference r =>
    have same := (h b (.refl b)).symm.trans (h' b (.refl b))
    cases same
    rfl
  | signature s => exact h.elim

lemma within_empty : Builder.empty.Within mentions := by
  intro table k bound
  cases table <;> exact absurd bound (Nat.not_lt_zero k)

/-- The builder took a row of a table, or found it there, and is otherwise the same. -/
structure TakesRow (b : Builder) (table : TableKind) (row : Nat) (b' : Builder) : Prop where
  filled : ∃ k, row = k + 1 ∧ k < b'.size table
  others : ∀ table' k, k < b'.size table' → k < b.size table' ∨ table' = table ∧ k + 1 = row

/-- A builder that took a row for a mention is still one of such rows. -/
lemma Within.of_takesRow (h : b.Within mentions) (grows : b.Grows b') (listed : e ∈ mentions)
    (kind : e.table? = some table) (takes : b.TakesRow table row b') (answers : b'.Answers row e) :
    b'.Within mentions := by
  intro table' k bound
  obtain old | ⟨rfl, rfl⟩ := takes.others table' k bound
  · obtain ⟨other, listed, kind, answers⟩ := h table' k old
    exact ⟨other, listed, kind, answers.of_grows grows⟩
  · exact ⟨e, listed, kind, answers⟩

/-- No table has more rows than there are distinct mentions for it. -/
lemma Within.size_le (h : b.Within mentions) (table : TableKind) :
    b.size table ≤ ((mentions.filter (·.table? = some table)).dedup).length := by
  choose answered listed kind answers using h table
  -- The rows are given back by the mentions that they answer, so no mention answers for two.
  have nodup : ((List.finRange (b.size table)).map fun k : Fin _ => answered k k.isLt).Nodup := by
    refine (List.nodup_finRange _).map fun k j same => Fin.ext ?_
    have first := answers k k.isLt
    rw [show answered k k.isLt = answered j j.isLt from same] at first
    exact Nat.succ.inj (first.unique (answers j j.isLt))
  have subset : ((List.finRange (b.size table)).map fun k : Fin _ => answered k k.isLt)
      ⊆ (mentions.filter (·.table? = some table)).dedup := by
    intro e he
    obtain ⟨k, _, rfl⟩ := List.mem_map.1 he
    refine List.mem_dedup.2 (List.mem_filter.2 ⟨listed k k.isLt, ?_⟩)
    exact decide_eq_true (kind k k.isLt)
  have le := (nodup.subperm subset).length_le
  rw [List.length_map, List.length_finRange] at le
  exact le

end Builder

namespace Building

lemma typeRefRow_takesRow (t : TypeRef) (b : Builder) :
    ∃ row b', typeRefRow t b = .ok (row, b') ∧ b.TakesRow .typeRefs row b' := by
  refine ⟨_, _, typeRefRow_eq t b, Table.row_intern b.typeRefs t, fun table k bound => ?_⟩
  cases table with
  | typeRefs => exact (Table.size_intern bound).imp_right fun same => ⟨rfl, same⟩
  | _ => exact .inl bound

lemma stringRow_takesRow (s : String) (b : Builder) :
    ∃ row b', stringRow s b = .ok (row, b') ∧ b.TakesRow .strings row b' := by
  refine ⟨_, _, stringRow_eq s b, Table.row_intern b.strings s, fun table k bound => ?_⟩
  cases table with
  | strings => exact (Table.size_intern bound).imp_right fun same => ⟨rfl, same⟩
  | _ => exact .inl bound

lemma typeSpecRow_takesRow (bytes : Bytes) (b : Builder) :
    ∃ row b', typeSpecRow bytes b = .ok (row, b') ∧ b.TakesRow .typeSpecs row b' := by
  refine ⟨_, _, typeSpecRow_eq bytes b, Table.row_intern b.typeSpecs bytes, fun table k bound => ?_⟩
  cases table with
  | typeSpecs => exact (Table.size_intern bound).imp_right fun same => ⟨rfl, same⟩
  | _ => exact .inl bound

lemma memberRow_takesRow (bytes : Bytes) (b : Builder) :
    ∃ row b', memberRow bytes b = .ok (row, b') ∧ b.TakesRow .members row b' := by
  refine ⟨_, _, memberRow_eq bytes b, Table.row_intern b.members bytes, fun table k bound => ?_⟩
  cases table with
  | members => exact (Table.size_intern bound).imp_right fun same => ⟨rfl, same⟩
  | _ => exact .inl bound

end Building

end Image

end HookWeave

import HookWeave.Proofs.Image.Tables
import HookWeave.Proofs.Image.Written

/-!
# Lists and attributes read back

A list that is written with tables reads back element by element (`yields_writeList_reads`), whatever
later elements add to the tables. The arguments of an attribute are trees: they read back if they take
no more levels than the reader has (`yields_writeArgument`), by induction on the tree together with the
lists of elements in it. Arrays that nest less deep than that do (`Attribute.Shallow.admitted`).
-/

namespace HookWeave

mutual

/-- How deep the arrays of an argument nest. -/
def AttributeArgument.nesting : AttributeArgument → Nat
  | .array elements => nestingAll elements + 1
  | .null | .bool _ | .int32 _ | .string _ | .type _ => 0

/-- How deep the arrays of the deepest argument nest. -/
def AttributeArgument.nestingAll : List AttributeArgument → Nat
  | [] => 0
  | a :: as => max a.nesting (nestingAll as)

end

/-- The attribute nests less deep than the reader admits, in its arguments and in the types of its
constructor. -/
structure Attribute.Shallow (a : Attribute) : Prop where
  constructor : a.constructor.sig.Shallow
  arguments : ∀ x ∈ a.arguments, x.nesting < Image.maxArgumentDepth

mutual

/-- How many levels of the reader an argument takes: an array takes one more than its elements, if it
has any. -/
def AttributeArgument.levels : AttributeArgument → Nat
  | .array elements => levelsAll elements + 1
  | .null | .bool _ | .int32 _ | .string _ | .type _ => 1

/-- How many levels of the reader some arguments take. -/
def AttributeArgument.levelsAll : List AttributeArgument → Nat
  | [] => 0
  | a :: as => max a.levels (levelsAll as)

end

/-- The attribute takes no more levels than the reader has, in its arguments and in the types of its
constructor. -/
structure Attribute.Admitted (a : Attribute) : Prop where
  constructor : a.constructor.sig.Shallow
  arguments : AttributeArgument.levelsAll a.arguments ≤ Image.maxArgumentDepth

namespace AttributeArgument

/-- Arguments take as many levels as the one that takes most of them. -/
lemma levelsAll_le {as : List AttributeArgument} {n : Nat} (each : ∀ a ∈ as, a.levels ≤ n) :
    levelsAll as ≤ n := by
  induction as with
  | nil => exact Nat.zero_le n
  | cons a as ih =>
    obtain ⟨first, others⟩ := List.forall_mem_cons.1 each
    exact Nat.max_le.2 ⟨first, ih others⟩

mutual

/-- The innermost element or array of an argument takes one level. -/
lemma levels_le (a : AttributeArgument) {n : Nat} (h : a.nesting < n) : a.levels ≤ n := by
  cases a with
  | array elements =>
    have inner : nestingAll elements < n - 1 := Nat.lt_sub_of_add_lt h
    have := levelsAll_le_of_nestingAll elements inner
    show levelsAll elements + 1 ≤ n
    omega
  | _ => exact Nat.succ_le_of_lt (Nat.zero_lt_of_lt h)

lemma levelsAll_le_of_nestingAll (as : List AttributeArgument) {n : Nat} (h : nestingAll as < n) :
    levelsAll as ≤ n := by
  cases as with
  | nil => exact Nat.zero_le n
  | cons a as =>
    obtain ⟨first, others⟩ := Nat.max_lt.1 h
    exact Nat.max_le.2 ⟨levels_le a first, levelsAll_le_of_nestingAll as others⟩

end

end AttributeArgument

lemma Attribute.Shallow.admitted {a : Attribute} (h : a.Shallow) : a.Admitted :=
  ⟨h.constructor, AttributeArgument.levelsAll_le fun x hx =>
    AttributeArgument.levels_le x (h.arguments x hx)⟩

namespace Image.Building

variable {α β : Type} {b b' : Builder} {bytes : Bytes}

/-! ## Lists -/

lemma accumulates_yields : Accumulates Yields :=
  ⟨.refl, .and, .imp⟩

/-- A list reads back as a list that corresponds to it if its elements do, with a byte each. -/
lemma yields_writeList_reads {write : α → Building Bytes} {r : Tables → Reader β}
    {R : α → β → Prop} {as : List α} (h : writeList write as b = .ok (bytes, b'))
    (each : ∀ a ∈ as, ∀ b out b', write a b = .ok (out, b') →
      Yields b b' fun tables => out ≠ [] ∧ ∃ a', R a a' ∧ (r tables).Reads out a') :
    Yields b b' fun tables => ∃ as', List.Forall₂ R as as' ∧
      (Reader.list (r tables)).Reads bytes as' := by
  obtain ⟨count, pieces, counted, rfl, yields⟩ := accumulates_yields.writeList h each
  exact yields.imp fun _ each => Reader.reads_list counted each

/-- A list reads back if its elements do, with a byte each. -/
lemma yields_writeList_eq {write : α → Building Bytes} {r : Tables → Reader α} {as : List α}
    (h : writeList write as b = .ok (bytes, b'))
    (each : ∀ a ∈ as, ∀ b out b', write a b = .ok (out, b') →
      Yields b b' fun tables => out ≠ [] ∧ (r tables).Reads out a) :
    Yields b b' fun tables => (Reader.list (r tables)).Reads bytes as := by
  have lists : Yields b b' fun tables => ∃ as', List.Forall₂ Eq as as' ∧
      (Reader.list (r tables)).Reads bytes as' :=
    yields_writeList_reads h fun a ha b out b' written =>
      (each a ha b out b' written).imp fun _ h => ⟨h.1, a, rfl, h.2⟩
  refine lists.imp fun tables ⟨as', same, reads⟩ => ?_
  rw [List.forall₂_eq_eq_eq] at same
  cases same
  exact reads

/-! ## Arguments -/

mutual

/-- An argument reads back if it takes no more levels than there are. -/
lemma yields_writeArgument (a : AttributeArgument) {b b' : Builder} {bytes : Bytes} {levels : Nat}
    (h : writeArgument a b = .ok (bytes, b')) (admitted : a.levels ≤ levels) :
    Yields b b' fun tables => bytes ≠ [] ∧ (tables.readArgument levels).Reads bytes a := by
  have some : 0 < a.levels := by
    cases a
    all_goals exact Nat.succ_pos _
  obtain ⟨levels, rfl⟩ := Nat.exists_eq_add_one.2 (Nat.lt_of_lt_of_le some admitted)
  cases a with
  | null =>
    obtain ⟨rfl, rfl⟩ := run_pure_eq_ok.1 h
    refine .refl fun tables => ⟨List.cons_ne_nil _ _, ?_⟩
    exact (Reader.reads_uint8 ArgumentTag.null).bind_nil Reader.Reads.pure
  | bool v =>
    obtain ⟨rfl, rfl⟩ := run_pure_eq_ok.1 h
    refine .refl fun tables => ⟨List.cons_ne_nil _ _, ?_⟩
    refine Reader.Reads.bind (s := [_]) (Reader.reads_uint8 ArgumentTag.bool) ?_
    refine (Reader.reads_uint8 _).bind_nil ?_
    cases v
    all_goals exact Reader.Reads.pure
  | int32 v =>
    obtain ⟨rfl, rfl⟩ := run_pure_eq_ok.1 h
    refine .refl fun tables => ⟨List.cons_ne_nil _ _, ?_⟩
    refine Reader.Reads.bind (s := [_]) (Reader.reads_uint8 ArgumentTag.int32) ?_
    exact (Reader.reads_int32 v).bind_pure
  | string text =>
    obtain ⟨out, encoded, h⟩ := run_lift_bind_eq_ok.1 h
    obtain ⟨rfl, rfl⟩ := run_pure_eq_ok.1 h
    refine .refl fun tables => ⟨List.cons_ne_nil _ _, ?_⟩
    refine Reader.Reads.bind (s := [_]) (Reader.reads_uint8 ArgumentTag.string) ?_
    exact (Reader.reads_string encoded).bind_pure
  | type ref =>
    obtain ⟨out, b₁, interned, h⟩ := run_bind_eq_ok.1 h
    obtain ⟨rfl, rfl⟩ := run_pure_eq_ok.1 h
    refine (yields_interning interned fun _ h => interned_typeRef h).imp fun tables read => ?_
    refine ⟨List.cons_ne_nil _ _, ?_⟩
    refine Reader.Reads.bind (s := [_]) (Reader.reads_uint8 ArgumentTag.type) ?_
    exact (Table.reads_readTypeRef read.2).bind_pure
  | array elements =>
    obtain ⟨count, counted, h⟩ := run_lift_bind_eq_ok.1 h
    obtain ⟨out, b₁, written, h⟩ := run_bind_eq_ok.1 h
    obtain ⟨rfl, rfl⟩ := run_pure_eq_ok.1 h
    have admitted : AttributeArgument.levelsAll elements ≤ levels := Nat.le_of_succ_le_succ admitted
    refine (yields_writeArguments elements written admitted).imp fun tables ⟨enough, reads⟩ => ?_
    refine ⟨List.cons_ne_nil _ _, ?_⟩
    refine Reader.Reads.bind (s := [_]) (Reader.reads_uint8 ArgumentTag.array) ?_
    have list : (Reader.list (tables.readArgument levels)).Reads (count ++ out) elements :=
      fun _ => Reader.readsAt_count_bind counted enough (reads _)
    exact list.bind_pure

/-- Arguments read back one after another. -/
lemma yields_writeArguments (as : List AttributeArgument) {b b' : Builder} {bytes : Bytes}
    {levels : Nat} (h : writeArguments as b = .ok (bytes, b'))
    (admitted : AttributeArgument.levelsAll as ≤ levels) :
    Yields b b' fun tables => as.length ≤ bytes.length ∧
      (Reader.times (tables.readArgument levels) as.length).Reads bytes as := by
  cases as with
  | nil =>
    obtain ⟨rfl, rfl⟩ := run_pure_eq_ok.1 h
    exact .refl fun tables => ⟨Nat.le_refl _, Reader.reads_times_zero _⟩
  | cons a as =>
    obtain ⟨front, b₁, first, h⟩ := run_bind_eq_ok.1 h
    obtain ⟨back, b₂, others, h⟩ := run_bind_eq_ok.1 h
    obtain ⟨rfl, rfl⟩ := run_pure_eq_ok.1 h
    obtain ⟨admitted, admittedAll⟩ := Nat.max_le.1 admitted
    have first := yields_writeArgument a first admitted
    have others := yields_writeArguments as others admittedAll
    refine (first.and others).imp fun tables ⟨⟨filled, read⟩, enough, reads⟩ => ?_
    refine ⟨?_, Reader.reads_times_succ read reads⟩
    have := List.length_pos_iff.2 filled
    rw [List.length_cons, List.length_append]
    omega

end

/-! ## Attributes -/

/-- An attribute reads back. -/
lemma yields_writeAttribute {a : Attribute} (h : writeAttribute a b = .ok (bytes, b'))
    (admitted : a.Admitted) :
    Yields b b' fun tables => bytes ≠ [] ∧ tables.readAttribute.Reads bytes a := by
  obtain ⟨row, constructor, count, arguments, b₁, referred, encoded, counted, written, rfl⟩ :=
    of_writeAttribute_eq_ok h
  have referred := yields_method referred admitted.constructor
  have written := yields_writeArguments a.arguments written admitted.arguments
  refine (referred.and written).imp fun tables ⟨⟨k, same, found⟩, enough, reads⟩ => ?_
  rw [same] at encoded
  refine ⟨List.append_ne_nil_of_left_ne_nil (Reader.compressed_ne_nil encoded) _, ?_⟩
  have made : tables.readConstructor.Reads constructor a.constructor := by
    refine (Reader.reads_row encoded).bind_nil ?_
    simp only [found]
    exact Reader.Reads.pure
  have list : (Reader.list (tables.readArgument maxArgumentDepth)).Reads (count ++ arguments)
      a.arguments := fun _ => Reader.readsAt_count_bind counted enough (reads _)
  exact made.bind list.bind_pure

/-- Attributes read back. -/
lemma yields_writeAttributes {attributes : List Attribute}
    (h : writeList writeAttribute attributes b = .ok (bytes, b'))
    (admitted : ∀ a ∈ attributes, a.Admitted) :
    Yields b b' fun tables => (Reader.list tables.readAttribute).Reads bytes attributes :=
  yields_writeList_eq h fun a ha _ _ _ written => yields_writeAttribute written (admitted a ha)

end Image.Building

end HookWeave

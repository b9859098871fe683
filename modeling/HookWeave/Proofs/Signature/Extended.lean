import HookWeave.Proofs.Bytes.Extended
import HookWeave.Proofs.Signature.Codec

/-!
# Signatures with more data behind

The state of a read of signatures holds a cursor, so it is related to that over longer data like the
cursor (`SignatureState.Extended`). Types are read alike from both (`respects_type`).
-/

namespace HookWeave

variable {α : Type}

/-- The second state stands in longer data, at the position and the depth of the first. -/
structure SignatureState.Extended (size : Nat) (more : Bytes) (s t : SignatureState) : Prop where
  cursor : s.cursor.Extended size more t.cursor
  depth : t.depth = s.depth

namespace Table

variable {size : Nat} {more : Bytes} (table : Table TypeRef)

lemma respects_readTypeRef? : Respects (Cursor.Extended size more) table.readTypeRef? := by
  refine Reader.respects_row.bind fun row => ?_
  cases row with
  | none => exact .pure none
  | some index =>
    dsimp only
    split
    · exact .pure _
    · exact respects_throw _

lemma respects_readTypeRef : Respects (Cursor.Extended size more) table.readTypeRef := by
  refine table.respects_readTypeRef?.bind fun found => ?_
  cases found with
  | some t => exact .pure t
  | none => exact Reader.respects_position.bind fun at' => Reader.respects_malformed _

end Table

namespace SignatureReader

variable {size : Nat} {more : Bytes} {table : Table TypeRef}

lemma respects_lift {r : Reader α} (h : Respects (Cursor.Extended size more) r) :
    Respects (SignatureState.Extended size more) (lift r) := by
  intro s t related a s' goes
  unfold lift at goes
  split at goes
  · next c' first =>
    cases goes
    obtain ⟨d', first', cursor⟩ := h s.cursor t.cursor related.cursor a c' first
    refine ⟨{ t with cursor := d' }, ?_, cursor, related.depth⟩
    unfold lift
    simp only [first']
  · cases goes

lemma respects_enter : Respects (SignatureState.Extended size more) enter := by
  rintro s t ⟨related, depth⟩ _ s' goes
  cases goes
  exact ⟨_, rfl, related, congrArg (· + 1) depth⟩

lemma respects_leave : Respects (SignatureState.Extended size more) leave := by
  rintro s t ⟨related, depth⟩ _ s' goes
  cases goes
  exact ⟨_, rfl, related, congrArg (· - 1) depth⟩

lemma respects_typeWithin (levels : Nat) :
    Respects (SignatureState.Extended size more) (typeWithin table levels) := by
  induction levels with
  | zero => exact respects_enter.bind fun _ => respects_throw _
  | succ levels ih =>
    rw [typeWithin_succ]
    refine respects_enter.bind fun _ => (respects_lift Reader.respects_uint8).bind fun code => ?_
    refine Respects.bind ?_ fun type => respects_leave.bind fun _ => .pure type
    have ref : Respects (SignatureState.Extended size more) (lift table.readTypeRef) :=
      respects_lift table.respects_readTypeRef
    unfold typeAfter
    split
    · exact .pure _
    · refine .ite (ref.map _) (.ite (ref.map _) (.ite (ih.map _) (.ite (ih.map _) ?_)))
      intro s t related a s' goes
      cases goes

lemma respects_type : Respects (SignatureState.Extended size more) (type table) := by
  intro s t related a s' goes
  obtain ⟨t', goes', related'⟩ := respects_typeWithin _ s t related a s' goes
  refine ⟨t', ?_, related'⟩
  rw [← related.depth] at goes'
  exact goes'

lemma respects_fresh {r : SignatureReader α} (h : Respects (SignatureState.Extended size more) r) :
    Respects (Cursor.Extended size more) (fresh r) := by
  intro c d related a c' goes
  unfold fresh at goes
  split at goes
  · next s' first =>
    cases goes
    obtain ⟨t', first', related⟩ := h ⟨c, 0⟩ ⟨d, 0⟩ ⟨related, rfl⟩ a s' first
    refine ⟨t'.cursor, ?_, related.cursor⟩
    unfold fresh
    simp only [first']
  · cases goes

end SignatureReader
end HookWeave

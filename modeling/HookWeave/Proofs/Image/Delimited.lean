import HookWeave.Proofs.Image.Canonical
import HookWeave.Proofs.Signature.Extended

/-!
# Where images end

An image says itself where it ends. All reads that make it up go the same way when more data follow, so the
reader arrives at the end of an accepted image with these data left, and refuses them
(`Image.delimits_read`). No image is a proper beginning of another one (`Module.ofBytes_delimited`).
-/

namespace HookWeave
namespace Image

variable {size : Nat} {more : Bytes}

namespace Tables

variable (tables : Tables) (table : Table TypeRef)

/-! ## Tables -/

lemma respects_readTypeRef : Respects (Cursor.Extended size more) readTypeRef := by
  refine Reader.respects_string.bind fun scope => Reader.respects_string.bind fun space => ?_
  exact Reader.respects_string.bind fun name => .pure _

lemma respects_readMember : Respects (Cursor.Extended size more) (readMember table) := by
  refine Reader.respects_uint8.bind fun kind => table.respects_readTypeRef.bind fun owner => ?_
  exact Reader.respects_string.bind fun name => Reader.respects_blob _ _

lemma respects_read : Respects (Cursor.Extended size more) read := by
  refine (Reader.respects_list Reader.respects_string).bind fun strings => ?_
  refine (Reader.respects_list respects_readTypeRef).bind fun typeRefs => ?_
  refine (Reader.respects_list (Reader.respects_blob _ _)).bind fun typeSpecs => ?_
  exact (Reader.respects_list (respects_readMember _)).bind fun members => .pure _

/-! ## Attributes and bodies -/

lemma respects_readArgument (levels : Nat) :
    Respects (Cursor.Extended size more) (tables.readArgument levels) := by
  induction levels with
  | zero => exact respects_throw _
  | succ levels ih =>
    refine Reader.respects_uint8.bind fun tag => .ite (.pure _) (.ite ?bool (.ite ?int32
      (.ite ?string (.ite ?type (.ite ?array (Reader.respects_malformed _))))))
    case bool => exact Reader.respects_uint8.bind fun value => .pure _
    case int32 => exact Reader.respects_int32.bind fun value => .pure _
    case string => exact Reader.respects_string.bind fun s => .pure _
    case type => exact tables.typeRefs.respects_readTypeRef.bind fun t => .pure _
    case array => exact (Reader.respects_list ih).bind fun elements => .pure _

lemma respects_readConstructor : Respects (Cursor.Extended size more) tables.readConstructor := by
  refine Reader.respects_row.bind fun row => ?_
  cases row with
  | none => exact Reader.respects_malformed _
  | some index =>
    dsimp only
    split
    · exact .pure _
    · exact Reader.respects_malformed _

lemma respects_readAttributes :
    Respects (Cursor.Extended size more) (Reader.list tables.readAttribute) := by
  refine Reader.respects_list (tables.respects_readConstructor.bind fun constructor => ?_)
  exact (Reader.respects_list (tables.respects_readArgument _)).bind fun arguments => .pure _

lemma respects_readClause (code : DecodedBody) :
    Respects (Cursor.Extended size more) (tables.readClause code) := by
  refine Reader.respects_uint16.bind fun flags => ?_
  refine Reader.respects_uint32.bind fun tryOffset => Reader.respects_uint32.bind fun tryLength => ?_
  refine Reader.respects_uint32.bind fun handlerOffset =>
    Reader.respects_uint32.bind fun handlerLength => ?_
  refine tables.typeRefs.respects_readTypeRef?.bind fun catchType => ?_
  refine .ite (Reader.respects_malformed _) (.ite (Reader.respects_malformed _) ?_)
  refine (Reader.respects_ofExcept _).bind fun tryStart => ?_
  refine (Reader.respects_ofExcept _).bind fun tryEnd => ?_
  refine (Reader.respects_ofExcept _).bind fun handlerStart => ?_
  exact (Reader.respects_ofExcept _).bind fun handlerEnd => .pure _

lemma respects_readInit : Respects (Cursor.Extended size more) readInit :=
  Reader.respects_uint8.bind fun _ => .ite (.pure _) (.ite (.pure _) (Reader.respects_malformed _))

/-- Code is decoded from as many bytes as its size says. -/
lemma respects_readBody : Respects (Cursor.Extended size more) tables.readBody := by
  refine Reader.respects_uint16.bind fun maxStack => respects_readInit.bind fun init => ?_
  refine (Reader.respects_list (SignatureReader.respects_fresh SignatureReader.respects_type)).bind
    fun locals => ?_
  refine Reader.respects_count.bind fun n => (Reader.respects_take n).bind fun bytes => ?_
  refine (Reader.respects_ofExcept _).bind fun code => ?_
  exact (Reader.respects_list (tables.respects_readClause code)).bind fun clauses => .pure _

lemma respects_readBody? (method : String) :
    Respects (Cursor.Extended size more) (tables.readBody? method) := by
  refine Reader.respects_uint8.bind fun mark => ?_
  refine .ite (.pure _) (.ite ?_ (Reader.respects_malformed _))
  exact tables.respects_readBody.bind fun body => .pure _

/-! ## Definitions -/

lemma respects_readField : Respects (Cursor.Extended size more) tables.readField := by
  refine Reader.respects_uint16.bind fun flags => Reader.respects_string.bind fun name => ?_
  refine (Reader.respects_blob _ _).bind fun type => ?_
  exact tables.respects_readAttributes.bind fun attributes => .pure _

lemma respects_readParams (types : List TypeSig) :
    Respects (Cursor.Extended size more) (readParams types) := by
  induction types with
  | nil => exact .pure []
  | cons type types ih => exact Reader.respects_string.bind fun name => ih.bind fun params => .pure _

lemma respects_readMethod : Respects (Cursor.Extended size more) tables.readMethod := by
  refine Reader.respects_uint16.bind fun flags => Reader.respects_string.bind fun name => ?_
  refine (Reader.respects_blob _ _).bind fun sig => Reader.respects_guard ?_
  refine Reader.respects_count.bind fun count => Reader.respects_guard ?_
  refine (respects_readParams sig.params).bind fun params => ?_
  refine tables.respects_readAttributes.bind fun attributes => ?_
  exact (tables.respects_readBody? name).bind fun body => .pure _

lemma respects_readType : Respects (Cursor.Extended size more) tables.readType := by
  refine Reader.respects_uint32.bind fun flags => Reader.respects_string.bind fun space => ?_
  refine Reader.respects_string.bind fun name => ?_
  refine tables.typeRefs.respects_readTypeRef?.bind fun base => ?_
  refine (Reader.respects_list tables.typeRefs.respects_readTypeRef).bind fun interfaces => ?_
  refine tables.respects_readAttributes.bind fun attributes => ?_
  refine (Reader.respects_list tables.respects_readField).bind fun fields => ?_
  exact (Reader.respects_list tables.respects_readMethod).bind fun methods => .pure _

end Tables

/-! ## Images -/

variable {α β : Type} {r : Reader α} {f : α → Reader β}

/-- What the read accepts it refuses with more data behind, because of these. -/
def Delimits (size : Nat) (more : Bytes) (r : Reader α) : Prop :=
  ∀ c d, c.Extended size more d → ∀ a c', r c = .ok a c' →
    ∃ d', r d = .error (.malformed (.trailingData size)) d'

lemma Delimits.bind (hr : Respects (Cursor.Extended size more) r) (hf : ∀ a, Delimits size more (f a)) :
    Delimits size more (r >>= f) := by
  intro c d related b c' goes
  obtain ⟨a, c₁, first, second⟩ := edit_bind_eq_ok.1 goes
  obtain ⟨d₁, first', related⟩ := hr c d related a c₁ first
  obtain ⟨d', refused⟩ := hf a c₁ d₁ related b c' second
  exact ⟨d', (bind_of_ok first').trans refused⟩

lemma delimits_guard {c : Prop} [Decidable c] {cause : Malformation} (h : Delimits size more r) :
    Delimits size more (if c then (do let _ : PUnit ← Reader.malformed cause; r) else r) := by
  split
  · intro c d related a c' goes
    cases goes
  · exact h

/-- At the end of an image no data may be left. -/
lemma delimits_end (some : more ≠ []) (m : Module) : Delimits size more (do
    if (← get).hasMore then
      Reader.malformed (.trailingData (← Reader.position))
    return m) := by
  rintro ⟨pos, bytes⟩ d ⟨rfl, rfl⟩ a c' goes
  cases bytes with
  | nil =>
    cases more with
    | nil => exact absurd rfl some
    | cons b more => exact ⟨_, rfl⟩
  | cons b bytes => cases goes

lemma delimits_read (some : more ≠ []) : Delimits size more read := by
  refine .bind (Reader.respects_take _) fun found => delimits_guard ?_
  refine .bind Reader.respects_uint16 fun version => delimits_guard ?_
  refine .bind Reader.respects_string fun name => .bind Tables.respects_read fun tables => ?_
  refine .bind (Reader.respects_list Reader.respects_string) fun references => ?_
  refine .bind (Reader.respects_list tables.respects_readType) fun types => ?_
  exact delimits_end some _

end Image

variable {x y z : Bytes} {m : Module}

lemma Module.ofBytes_eq_ok (h : ofBytes x = .ok m) :
    x ≠ [] ∧ ∃ c, Image.read (.start x) = .ok m c := by
  cases x with
  | nil => cases h
  | cons b x =>
    refine ⟨List.cons_ne_nil _ _, ?_⟩
    change Image.read.value (b :: x) = .ok m at h
    unfold Reader.value at h
    split at h
    · next c read =>
      cases h
      exact ⟨c, read⟩
    · cases h

/-- An accepted image is refused with anything behind it. -/
lemma Module.ofBytes_append (h : ofBytes x = .ok m) (some : y ≠ []) :
    ofBytes (x ++ y) = .error (.malformed (.trailingData x.length)) := by
  obtain ⟨nonempty, c, read⟩ := ofBytes_eq_ok h
  have extended : (Cursor.start x).Extended x.length y (.start (x ++ y)) :=
    ⟨Nat.zero_add _, rfl⟩
  obtain ⟨d, refused⟩ := Image.delimits_read some _ _ extended m c read
  cases x with
  | nil => exact absurd rfl nonempty
  | cons b x =>
    show Image.read.value (b :: x ++ y) = _
    unfold Reader.value EStateM.run
    rw [refused]

/-- Images are self-delimiting: with anything behind it an accepted image is refused, and so is every
proper beginning of it. -/
theorem Module.ofBytes_delimited (h : ofBytes x = .ok m) :
    (∀ y, y ≠ [] → ofBytes (x ++ y) = .error (.malformed (.trailingData x.length)))
      ∧ ∀ z, z <+: x → z ≠ x → ∃ e, ofBytes z = .error e := by
  refine ⟨fun y some => ofBytes_append h some, fun z ⟨y, whole⟩ proper => ?_⟩
  cases read : ofBytes z with
  | error e => exact ⟨e, rfl⟩
  | ok m' =>
    have some : y ≠ [] := by
      rintro rfl
      exact proper ((List.append_nil z).symm.trans whole)
    have refused := ofBytes_append read some
    rw [whole, h] at refused
    cases refused

namespace Example

/-- The image with the doubled text is refused with a byte behind it, and without its last byte. -/
theorem doubled_delimited :
    Module.ofBytes doubled = .ok doubledModule
      ∧ Module.ofBytes (doubled ++ [0]) = .error (.malformed (.trailingData 54))
      ∧ ∃ e, Module.ofBytes doubled.dropLast = .error e := by
  obtain ⟨behind, before⟩ := Module.ofBytes_delimited ofBytes_doubled
  refine ⟨ofBytes_doubled, behind [0] (by decide), before _ (List.dropLast_prefix _) ?_⟩
  decide

end Example

end HookWeave

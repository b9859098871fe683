import HookWeave.Proofs.Image.Rows
import HookWeave.Proofs.Signature.Apart

/-!
# What rows denote

A row of a builder denotes what its content stands for: a string or a type reference that is there as such, or a
type or a member whose bytes are there, in which types by name are rows of the builder (`Builder.Denotes`). The
row that a reference is given denotes it (`Building.denotes_rowOf`). The rows of other tables that bytes contain
mean the same when the tables grow, so a row denotes the same for good (`Denotes.of_grows`), and bytes can be told
apart, so it denotes nothing else (`Denotes.unique`).
-/

namespace HookWeave
namespace Image

variable {b b' : Builder} {table later : Table TypeRef} {bytes out : Bytes} {row : Nat}

/-! ## Members in bytes -/

/-- The bytes of the row of a member with an encoded signature. -/
inductive MemberSpelled (table : Table TypeRef) (kind : MemberKind) (owner : TypeRef) (name : String)
    (sig : Bytes) : Bytes → Prop
  | intro {parent text boxed : Bytes} :
    owner.Spelled table parent →
    Encoding.string name = .ok text →
    Encoding.blob sig = .ok boxed →
    MemberSpelled table kind owner name sig (kind.code :: (parent ++ (text ++ boxed)))

namespace MemberSpelled

variable {kind kind' : MemberKind} {owner owner' : TypeRef} {name name' : String} {sig sig' : Bytes}

lemma of_prefix (h : MemberSpelled table kind owner name sig bytes) (goes : table.rows <+: later.rows) :
    MemberSpelled later kind owner name sig bytes := by
  cases h with
  | intro parent text boxed => exact .intro (parent.of_prefix goes) text boxed

/-- Bytes in bytes of their own are told apart, first by their number. -/
lemma apart_blob {out' : Bytes} (h : Encoding.blob sig = .ok out) (h' : Encoding.blob sig' = .ok out') :
    Apart out out' (sig = sig') := by
  obtain ⟨count, counted, h⟩ := bind_eq_ok.1 h
  obtain ⟨count', counted', h'⟩ := bind_eq_ok.1 h'
  cases h
  cases h'
  have numbers := Reader.apart_compressed (Reader.compressed_of_count counted)
    (Reader.compressed_of_count counted')
  exact (numbers.append fun same => .of_length same).imp And.right

/-- The bytes of a row are those of one member. -/
lemma unique (h : MemberSpelled table kind owner name sig bytes)
    (h' : MemberSpelled table kind' owner' name' sig' bytes) :
    kind.code = kind'.code ∧ owner = owner' ∧ name = name' ∧ sig = sig' := by
  generalize same : bytes = bytes' at h'
  cases h with
  | intro parent text boxed =>
    cases h' with
    | intro parent' text' boxed' =>
      refine (Apart.cons fun _ => (parent.apart parent').append fun _ =>
        (Reader.apart_string text text').append fun _ => apart_blob boxed boxed').of_eq same

end MemberSpelled

/-! ## What rows denote -/

/-- What a row stands for, going by the rows of the builder. -/
inductive Builder.Denotes (b : Builder) : Nat → Mention → Prop
  | typeRef {k : Nat} {t : TypeRef} :
    b.typeRefs.rows[k]? = some t →
    Denotes b (k + 1) (.typeRef t)
  | string {k : Nat} {s : String} :
    b.strings.rows[k]? = some s →
    Denotes b (k + 1) (.reference (.string s))
  | type {k : Nat} {t : TypeSig} {bytes : Bytes} :
    b.typeSpecs.rows[k]? = some bytes →
    t.Spelled b.typeRefs bytes →
    Denotes b (k + 1) (.reference (.type t))
  | method {k : Nat} {m : MethodRef} {sig bytes : Bytes} :
    b.members.rows[k]? = some bytes →
    m.sig.Spelled b.typeRefs sig →
    MemberSpelled b.typeRefs .method m.owner m.name sig bytes →
    Denotes b (k + 1) (.reference (.method m))
  | field {k : Nat} {f : FieldRef} {type bytes : Bytes} :
    b.members.rows[k]? = some bytes →
    f.type.Spelled b.typeRefs type →
    MemberSpelled b.typeRefs .field f.owner f.name (ElementCode.field :: type) bytes →
    Denotes b (k + 1) (.reference (.field f))

namespace Builder.Denotes

variable {e e' : Mention}

/-- A row stands for the same when tables grow. -/
lemma of_grows (h : b.Denotes row e) (grows : b.Grows b') : b'.Denotes row e := by
  cases h with
  | typeRef found => exact .typeRef (Table.getElem?_of_prefix grows.typeRefs found)
  | string found => exact .string (Table.getElem?_of_prefix grows.strings found)
  | type found spelled =>
    exact .type (Table.getElem?_of_prefix grows.typeSpecs found) (spelled.of_prefix grows.typeRefs)
  | method found sig spelled =>
    exact .method (Table.getElem?_of_prefix grows.members found) (sig.of_prefix grows.typeRefs)
      (spelled.of_prefix grows.typeRefs)
  | field found type spelled =>
    exact .field (Table.getElem?_of_prefix grows.members found) (type.of_prefix grows.typeRefs)
      (spelled.of_prefix grows.typeRefs)

/-- A row of a table stands for one thing only. -/
lemma unique (h : b.Denotes row e) (h' : b.Denotes row e') (same : e.table? = e'.table?) : e = e' := by
  cases h with
  | typeRef found =>
    cases h' with
    | typeRef found' => rw [Option.some.inj (found.symm.trans found')]
    | _ => cases same
  | string found =>
    cases h' with
    | string found' => rw [Option.some.inj (found.symm.trans found')]
    | _ => cases same
  | type found spelled =>
    cases h' with
    | type found' spelled' =>
      cases Option.some.inj (found.symm.trans found')
      rw [(spelled.apart spelled').of_eq rfl]
    | _ => cases same
  | @method _ m _ _ found sig spelled =>
    cases h' with
    | @method _ m' _ _ found' sig' spelled' =>
      cases Option.some.inj (found.symm.trans found')
      obtain ⟨_, owner, name, encoded⟩ := spelled.unique spelled'
      have signature := (sig.apart sig').of_eq encoded
      obtain ⟨_, _, _⟩ := m
      obtain ⟨_, _, _⟩ := m'
      cases owner
      cases name
      cases signature
      rfl
    | field found' _ spelled' =>
      -- They share a table, but not the byte that a row begins with.
      cases Option.some.inj (found.symm.trans found')
      cases (spelled.unique spelled').1
    | _ => cases same
  | @field _ f _ _ found type spelled =>
    cases h' with
    | @field _ f' _ _ found' type' spelled' =>
      cases Option.some.inj (found.symm.trans found')
      obtain ⟨_, owner, name, encoded⟩ := spelled.unique spelled'
      have sig := (type.apart type').of_eq (List.cons.inj encoded).2
      obtain ⟨_, _, _⟩ := f
      obtain ⟨_, _, _⟩ := f'
      cases owner
      cases name
      cases sig
      rfl
    | method found' _ spelled' =>
      cases Option.some.inj (found.symm.trans found')
      cases (spelled.unique spelled').1
    | _ => cases same

end Builder.Denotes

/-! ## Rows that are given -/

namespace Building

lemma denotes_typeRefRow {t : TypeRef} (h : typeRefRow t b = .ok (row, b')) :
    b'.Denotes row (.typeRef t) := by
  obtain ⟨k, same, found⟩ := Table.getElem?_intern b.typeRefs t
  rw [typeRefRow_eq, same] at h
  cases h
  exact .typeRef found

/-- The row of a member has its parts in bytes. -/
lemma spelled_member {kind : MemberKind} {owner : TypeRef} {name : String} {sig : Bytes}
    (h : member kind owner name sig b = .ok (row, b')) :
    b.Grows b' ∧ ∃ k bytes, row = k + 1 ∧ b'.members.rows[k]? = some bytes
      ∧ MemberSpelled b'.typeRefs kind owner name sig bytes := by
  refine ⟨(settles.member kind owner name sig b row b' h).1, ?_⟩
  obtain ⟨parent, b₁, interned, h⟩ := run_bind_eq_ok.1 h
  obtain ⟨text, named, h⟩ := run_lift_bind_eq_ok.1 h
  obtain ⟨boxed, counted, h⟩ := run_lift_bind_eq_ok.1 h
  have later := (settles_memberRow _ _ _ _ h).1.typeRefs
  have owned := holds_of_interning interned (fun _ h => spelled_typeRef h) later
  rw [memberRow_eq] at h
  cases h
  obtain ⟨k, same, found⟩ := Table.getElem?_intern b₁.members _
  exact ⟨k, _, same, found, .intro owned named counted⟩

/-- The row that a reference is given denotes the reference. -/
lemma denotes_rowOf {r : Reference} (h : rowOf r b = .ok (row, b')) : b'.Denotes row (.reference r) := by
  cases r with
  | method m =>
    obtain ⟨sig, b₁, interned, h⟩ := run_bind_eq_ok.1 h
    obtain ⟨grows, k, bytes, rfl, found, spelled⟩ := spelled_member h
    exact .method found (holds_of_interning interned (fun _ h => spelled_method h) grows.typeRefs) spelled
  | field f =>
    obtain ⟨sig, b₁, interned, h⟩ := run_bind_eq_ok.1 h
    obtain ⟨grows, k, bytes, rfl, found, spelled⟩ := spelled_member h
    obtain ⟨type, rfl, typed⟩ := holds_of_interning interned (fun _ h => spelled_field h) grows.typeRefs
    exact .field found typed spelled
  | type t =>
    obtain ⟨bytes, b₁, interned, h⟩ := run_bind_eq_ok.1 h
    have later := (settles_typeSpecRow _ _ _ _ h).1.typeRefs
    have spelled := holds_of_interning interned (fun _ h => spelled_type h) later
    obtain ⟨k, same, found⟩ := Table.getElem?_intern b₁.typeSpecs bytes
    rw [typeSpecRow_eq, same] at h
    cases h
    exact .type found spelled
  | string s =>
    obtain ⟨k, same, found⟩ := Table.getElem?_intern b.strings s
    rw [show rowOf (.string s) = stringRow s from rfl, stringRow_eq, same] at h
    cases h
    exact .string found

end Building

end Image
end HookWeave

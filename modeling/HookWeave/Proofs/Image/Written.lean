import HookWeave.Image.Reading
import HookWeave.Image.Writing
import HookWeave.Proofs.Outcomes

/-!
# What a writer has written

One inversion for each writer of definitions (`of_writeAttribute_eq_ok` to `of_writeType_eq_ok`): if it
goes well, its parts went well one after another, and the bytes are theirs in this order. That elements of
a list are written one after another is said once for all that may become true of the tables meanwhile
(`Accumulates.writeList`).
-/

namespace HookWeave.Image.Building

variable {α : Type} {b b' : Builder} {bytes : Bytes}

/-! ## Lists -/

/-- What becomes true of tables while they are written stays true: `T b b' P` says that writing took the
builder `b` to `b'` and made `P` true of the tables. -/
structure Accumulates (T : Builder → Builder → (Tables → Prop) → Prop) : Prop where
  refl {b : Builder} {P : Tables → Prop} : (∀ tables, P tables) → T b b P
  and {b b₁ b' : Builder} {P Q : Tables → Prop} : T b b₁ P → T b₁ b' Q →
    T b b' fun tables => P tables ∧ Q tables
  imp {b b' : Builder} {P Q : Tables → Prop} : T b b' P → (∀ tables, P tables → Q tables) → T b b' Q

namespace Accumulates

variable {T : Builder → Builder → (Tables → Prop) → Prop} {write : α → Building Bytes}
  {E : Tables → α → Bytes → Prop} {as : List α}

/-- Elements are written one after another, and what is true of each piece stays true. -/
lemma writeConcat (acc : Accumulates T)
    (each : ∀ a ∈ as, ∀ b out b', write a b = .ok (out, b') → T b b' fun tables => E tables a out)
    (h : writeConcat write as b = .ok (bytes, b')) :
    ∃ pieces, bytes = pieces.flatten ∧ T b b' fun tables => List.Forall₂ (E tables) as pieces := by
  induction as generalizing b bytes with
  | nil =>
    obtain ⟨rfl, rfl⟩ := run_pure_eq_ok.1 h
    exact ⟨[], rfl, acc.refl fun _ => .nil⟩
  | cons a as ih =>
    obtain ⟨front, b₁, first, h⟩ := run_bind_eq_ok.1 h
    obtain ⟨back, b₂, others, h⟩ := run_bind_eq_ok.1 h
    obtain ⟨rfl, rfl⟩ := run_pure_eq_ok.1 h
    have first := each a List.mem_cons_self b front b₁ first
    obtain ⟨pieces, rfl, rest⟩ :=
      ih (fun other h => each other (List.mem_cons_of_mem a h)) others
    exact ⟨front :: pieces, rfl, acc.imp (acc.and first rest) fun _ h => .cons h.1 h.2⟩

/-- A list is written as its number of elements and the pieces for them. -/
lemma writeList (acc : Accumulates T) (h : writeList write as b = .ok (bytes, b'))
    (each : ∀ a ∈ as, ∀ b out b', write a b = .ok (out, b') → T b b' fun tables => E tables a out) :
    ∃ count pieces, Encoding.count as.length = .ok count ∧ bytes = count ++ pieces.flatten
      ∧ T b b' fun tables => List.Forall₂ (E tables) as pieces := by
  obtain ⟨count, counted, h⟩ := run_lift_bind_eq_ok.1 h
  obtain ⟨elements, b₁, written, h⟩ := run_bind_eq_ok.1 h
  obtain ⟨rfl, rfl⟩ := run_pure_eq_ok.1 h
  obtain ⟨pieces, rfl, holds⟩ := acc.writeConcat each written
  exact ⟨count, pieces, counted, rfl, holds⟩

end Accumulates

lemma writeList_singleton_eq_ok {write : α → Building Bytes} {a : α} :
    writeList write [a] b = .ok (bytes, b')
      ↔ ∃ out, write a b = .ok (out, b') ∧ bytes = 1 :: (out ++ []) := by
  constructor
  · intro h
    obtain ⟨count, counted, h⟩ := run_lift_bind_eq_ok.1 h
    cases counted
    obtain ⟨elements, b₁, written, h⟩ := run_bind_eq_ok.1 h
    obtain ⟨rfl, rfl⟩ := run_pure_eq_ok.1 h
    obtain ⟨out, b₂, written, h⟩ := run_bind_eq_ok.1 written
    cases h
    exact ⟨out, written, rfl⟩
  · rintro ⟨out, written, rfl⟩
    exact run_lift_bind_eq_ok.2 ⟨[1], rfl, run_bind_eq_ok.2 ⟨_, b',
      run_bind_eq_ok.2 ⟨out, b', written, rfl⟩, rfl⟩⟩

/-! ## Definitions -/

lemma of_writeAttribute_eq_ok {a : Attribute} (h : writeAttribute a b = .ok (bytes, b')) :
    ∃ row constructor count arguments b₁, method a.constructor b = .ok (row, b₁)
      ∧ Encoding.compressed row = .ok constructor
      ∧ Encoding.count a.arguments.length = .ok count
      ∧ writeArguments a.arguments b₁ = .ok (arguments, b')
      ∧ bytes = constructor ++ (count ++ arguments) := by
  obtain ⟨row, b₁, referred, h⟩ := run_bind_eq_ok.1 h
  obtain ⟨constructor, encoded, h⟩ := run_lift_bind_eq_ok.1 h
  obtain ⟨count, counted, h⟩ := run_lift_bind_eq_ok.1 h
  obtain ⟨arguments, b₂, written, h⟩ := run_bind_eq_ok.1 h
  obtain ⟨rfl, rfl⟩ := run_pure_eq_ok.1 h
  exact ⟨row, constructor, count, arguments, b₁, referred, encoded, counted, written, rfl⟩

lemma of_writeClause_eq_ok {c : ExceptionClause} {e : EncodedBody}
    (h : writeClause e c b = .ok (bytes, b')) :
    ∃ tryStart tryEnd handlerStart handlerEnd tryLength handlerLength catchType,
      e.offsetOf (some c.tryStart) = .ok tryStart ∧ e.offsetOf c.tryEnd = .ok tryEnd
      ∧ e.offsetOf (some c.handlerStart) = .ok handlerStart
      ∧ e.offsetOf c.handlerEnd = .ok handlerEnd
      ∧ regionLength tryStart tryEnd = .ok tryLength
      ∧ regionLength handlerStart handlerEnd = .ok handlerLength
      ∧ interning (TypeRef.encodeOption c.catchType) b = .ok (catchType, b')
      ∧ bytes = Encoding.uint16 c.flags ++ (Encoding.uint32 (UInt32.ofNat tryStart)
        ++ (Encoding.uint32 tryLength ++ (Encoding.uint32 (UInt32.ofNat handlerStart)
        ++ (Encoding.uint32 handlerLength ++ catchType)))) := by
  obtain ⟨tryStart, tryStarts, h⟩ := run_lift_bind_eq_ok.1 h
  obtain ⟨tryEnd, tryEnds, h⟩ := run_lift_bind_eq_ok.1 h
  obtain ⟨handlerStart, handlerStarts, h⟩ := run_lift_bind_eq_ok.1 h
  obtain ⟨handlerEnd, handlerEnds, h⟩ := run_lift_bind_eq_ok.1 h
  obtain ⟨tryLength, tried, h⟩ := run_lift_bind_eq_ok.1 h
  obtain ⟨handlerLength, handled, h⟩ := run_lift_bind_eq_ok.1 h
  obtain ⟨catchType, b₁, interned, h⟩ := run_bind_eq_ok.1 h
  obtain ⟨rfl, rfl⟩ := run_pure_eq_ok.1 h
  exact ⟨tryStart, tryEnd, handlerStart, handlerEnd, tryLength, handlerLength, catchType, tryStarts,
    tryEnds, handlerStarts, handlerEnds, tried, handled, interned, rfl⟩

lemma of_writeBody_eq_ok {body : MethodBody} (h : writeBody body b = .ok (bytes, b')) :
    ∃ locals e code clauses b₁ b₂,
      writeList (fun t => interning (TypeSig.encode t)) body.locals b = .ok (locals, b₁)
      ∧ EncodedBody.ofList body.instructions allocator b₁ = .ok (e, b₂)
      ∧ Encoding.blob e.code = .ok code
      ∧ writeList (writeClause e) body.clauses b₂ = .ok (clauses, b')
      ∧ bytes = Encoding.uint16 body.maxStack ++ ((if body.initLocals then 1 else 0) :: (locals
        ++ (code ++ clauses))) := by
  obtain ⟨locals, b₁, listed, h⟩ := run_bind_eq_ok.1 h
  obtain ⟨e, b₂, encoded, h⟩ := run_bind_eq_ok.1 h
  obtain ⟨code, boxed, h⟩ := run_lift_bind_eq_ok.1 h
  obtain ⟨clauses, b₃, written, h⟩ := run_bind_eq_ok.1 h
  obtain ⟨rfl, rfl⟩ := run_pure_eq_ok.1 h
  exact ⟨locals, e, code, clauses, b₁, b₂, listed, encoded, boxed, written, rfl⟩

lemma of_writeField_eq_ok {f : FieldDeclaration} (h : writeField f b = .ok (bytes, b')) :
    ∃ name sig boxed attributes b₁, Encoding.string f.name = .ok name
      ∧ interning f.type.encodeField b = .ok (sig, b₁)
      ∧ Encoding.blob sig = .ok boxed
      ∧ writeList writeAttribute f.attributes b₁ = .ok (attributes, b')
      ∧ bytes = Encoding.uint16 f.flags ++ (name ++ (boxed ++ attributes)) := by
  obtain ⟨name, named, h⟩ := run_lift_bind_eq_ok.1 h
  obtain ⟨sig, b₁, interned, h⟩ := run_bind_eq_ok.1 h
  obtain ⟨boxed, box, h⟩ := run_lift_bind_eq_ok.1 h
  obtain ⟨attributes, b₂, attributed, h⟩ := run_bind_eq_ok.1 h
  obtain ⟨rfl, rfl⟩ := run_pure_eq_ok.1 h
  exact ⟨name, sig, boxed, attributes, b₁, named, interned, box, attributed, rfl⟩

lemma of_writeMethod_eq_ok {m : MethodDeclaration} (h : writeMethod m b = .ok (bytes, b')) :
    ∃ name sig boxed params attributes body b₁ b₂ b₃, Encoding.string m.name = .ok name
      ∧ interning m.sig.encode b = .ok (sig, b₁)
      ∧ Encoding.blob sig = .ok boxed
      ∧ writeList (fun p => Encoding.string p.name) m.params b₁ = .ok (params, b₂)
      ∧ writeList writeAttribute m.attributes b₂ = .ok (attributes, b₃)
      ∧ writeBody? m.body b₃ = .ok (body, b')
      ∧ bytes = Encoding.uint16 m.flags ++ (name ++ (boxed ++ (params ++ (attributes ++ body)))) := by
  obtain ⟨name, named, h⟩ := run_lift_bind_eq_ok.1 h
  obtain ⟨sig, b₁, interned, h⟩ := run_bind_eq_ok.1 h
  obtain ⟨boxed, box, h⟩ := run_lift_bind_eq_ok.1 h
  obtain ⟨params, b₂, listed, h⟩ := run_bind_eq_ok.1 h
  obtain ⟨attributes, b₃, attributed, h⟩ := run_bind_eq_ok.1 h
  obtain ⟨body, b₄, written, h⟩ := run_bind_eq_ok.1 h
  obtain ⟨rfl, rfl⟩ := run_pure_eq_ok.1 h
  exact ⟨name, sig, boxed, params, attributes, body, b₁, b₂, b₃, named, interned, box, listed, attributed,
    written, rfl⟩

lemma of_writeType_eq_ok {t : TypeDeclaration} (h : writeType t b = .ok (bytes, b')) :
    ∃ space name base interfaces attributes fields methods b₁ b₂ b₃ b₄,
      Encoding.string t.space = .ok space ∧ Encoding.string t.name = .ok name
      ∧ interning (TypeRef.encodeOption t.base) b = .ok (base, b₁)
      ∧ writeList (fun i => interning (TypeRef.encode i)) t.interfaces b₁ = .ok (interfaces, b₂)
      ∧ writeList writeAttribute t.attributes b₂ = .ok (attributes, b₃)
      ∧ writeList writeField t.fields b₃ = .ok (fields, b₄)
      ∧ writeList writeMethod t.methods b₄ = .ok (methods, b')
      ∧ bytes = Encoding.uint32 t.flags ++ (space ++ (name ++ (base ++ (interfaces
        ++ (attributes ++ (fields ++ methods)))))) := by
  obtain ⟨space, spaced, h⟩ := run_lift_bind_eq_ok.1 h
  obtain ⟨name, named, h⟩ := run_lift_bind_eq_ok.1 h
  obtain ⟨base, b₁, based, h⟩ := run_bind_eq_ok.1 h
  obtain ⟨interfaces, b₂, implemented, h⟩ := run_bind_eq_ok.1 h
  obtain ⟨attributes, b₃, attributed, h⟩ := run_bind_eq_ok.1 h
  obtain ⟨fields, b₄, fielded, h⟩ := run_bind_eq_ok.1 h
  obtain ⟨methods, b₅, written, h⟩ := run_bind_eq_ok.1 h
  obtain ⟨rfl, rfl⟩ := run_pure_eq_ok.1 h
  exact ⟨space, name, base, interfaces, attributes, fields, methods, b₁, b₂, b₃, b₄, spaced, named, based,
    implemented, attributed, fielded, written, rfl⟩

end HookWeave.Image.Building

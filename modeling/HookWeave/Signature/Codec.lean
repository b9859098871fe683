import HookWeave.Bytes.Encoding
import HookWeave.Signature.Basic
import HookWeave.Table

/-!
# Signatures as bytes

A signature is written as a sequence of element codes in which types by name are rows of a table
of type references. The writer puts the references it meets into the table; the reader looks them
up. Reading refuses types that nest too deeply.
-/

namespace HookWeave

/-- The code of a built-in type. -/
def Primitive.code : Primitive → UInt8
  | .void => 0x01
  | .bool => 0x02
  | .char => 0x03
  | .int8 => 0x04
  | .uint8 => 0x05
  | .int16 => 0x06
  | .uint16 => 0x07
  | .int32 => 0x08
  | .uint32 => 0x09
  | .int64 => 0x0A
  | .uint64 => 0x0B
  | .float32 => 0x0C
  | .float64 => 0x0D
  | .string => 0x0E
  | .nativeInt => 0x18
  | .nativeUint => 0x19
  | .object => 0x1C

/-- Every built-in type. -/
def Primitive.all : List Primitive :=
  [.void, .bool, .char, .int8, .uint8, .int16, .uint16, .int32, .uint32, .int64, .uint64,
    .float32, .float64, .string, .nativeInt, .nativeUint, .object]

/-- The built-in type with a code. -/
def Primitive.ofCode? (code : UInt8) : Option Primitive :=
  Primitive.all.find? fun p => p.code == code

namespace ElementCode

/-- The code before the target of an address. -/
def byRef : UInt8 := 0x10

/-- The code before the row of a value type. -/
def valueType : UInt8 := 0x11

/-- The code before the row of a reference type. -/
def refType : UInt8 := 0x12

/-- The code before the element of an array. -/
def array : UInt8 := 0x1D

/-- The mark of an instance method. -/
def hasThis : UInt8 := 0x20

/-- The mark of a field signature. -/
def field : UInt8 := 0x06

end ElementCode

/-! ## Writing -/

/-- A computation that may add type references to a table. -/
abbrev Interning := StateT (Table TypeRef) (Except Fault)

/-- The row of a type reference. -/
def TypeRef.intern (t : TypeRef) : Interning Nat :=
  modifyGet fun table => table.intern t

/-- The row of a type reference in compressed form. -/
def TypeRef.encode (t : TypeRef) : Interning Bytes := do
  let row ← t.intern
  Encoding.compressed row

/-- The row of a type reference, or 0 for none. -/
def TypeRef.encodeOption : Option TypeRef → Interning Bytes
  | some t => t.encode
  | none => Encoding.compressed 0

/-- The element codes of a type. -/
def TypeSig.encode : TypeSig → Interning Bytes
  | prim p => return [p.code]
  | refType t => return ElementCode.refType :: (← t.encode)
  | valueType t => return ElementCode.valueType :: (← t.encode)
  | byRef t => return ElementCode.byRef :: (← t.encode)
  | array t => return ElementCode.array :: (← t.encode)

/-- Types one after another. -/
def TypeSig.encodeList : List TypeSig → Interning Bytes
  | [] => return []
  | t :: ts => do
    let front ← t.encode
    let back ← encodeList ts
    return front ++ back

/-- A method signature: the mark of the receiver, the number of parameters, the type returned and
the types of the parameters. -/
def MethodSig.encode (s : MethodSig) : Interning Bytes := do
  let mark := if s.hasThis then ElementCode.hasThis else 0
  let count ← Encoding.count s.params.length
  let ret ← s.ret.encode
  let params ← TypeSig.encodeList s.params
  return mark :: (count ++ (ret ++ params))

/-- A field signature: its mark and the type. -/
def TypeSig.encodeField (t : TypeSig) : Interning Bytes :=
  return ElementCode.field :: (← t.encode)

/-! ## Reading -/

namespace Table

/-- The type reference at an index, counted from 0. -/
def typeRef (table : Table TypeRef) (index : Nat) : Except Fault TypeRef :=
  match table.get? index with
  | some t => .ok t
  | none => .error (.malformed (.typeRowMissing (index + 1)))

/-- Reads a type reference by its row; none is allowed. -/
def readTypeRef? (table : Table TypeRef) : Reader (Option TypeRef) := do
  match ← Reader.row with
  | none => return none
  | some index =>
    match table.typeRef index with
    | .ok t => return some t
    | .error e => throw e

/-- Reads a type reference by its row. -/
def readTypeRef (table : Table TypeRef) : Reader TypeRef := do
  match ← table.readTypeRef? with
  | some t => return t
  | none => Reader.malformed (.typeRefMissing (← Reader.position))

end Table

/-- The state of reading signatures: the cursor, and how deep the type being read nests. The depth
goes down again only when a type has been read to its end. -/
structure SignatureState where
  cursor : Cursor
  depth : Nat

/-- A read of signatures. -/
abbrev SignatureReader := EStateM Fault SignatureState

namespace SignatureReader

/-- The nesting at which types are refused. -/
def maxDepth : Nat := 50

/-- A read that does not nest. -/
def lift {α : Type} (r : Reader α) : SignatureReader α := fun s =>
  match r s.cursor with
  | .ok a c => .ok a { s with cursor := c }
  | .error e c => .error e { s with cursor := c }

/-- One level deeper. -/
def enter : SignatureReader Unit :=
  modify fun s => { s with depth := s.depth + 1 }

/-- One level up. -/
def leave : SignatureReader Unit :=
  modify fun s => { s with depth := s.depth - 1 }

/-- Reads a type that may nest `levels` levels deep. -/
def typeWithin (table : Table TypeRef) : (levels : Nat) → SignatureReader TypeSig
  | 0 => do
    enter
    throw (.recursionLimit maxDepth)
  | levels + 1 => do
    enter
    let code ← lift Reader.uint8
    let type ←
      match Primitive.ofCode? code with
      | some p => pure (.prim p)
      | none =>
        if code = ElementCode.refType then .refType <$> lift table.readTypeRef
        else if code = ElementCode.valueType then .valueType <$> lift table.readTypeRef
        else if code = ElementCode.byRef then .byRef <$> typeWithin table levels
        else if code = ElementCode.array then .array <$> typeWithin table levels
        else throw (.malformed (.elementType code ((← get).cursor.pos - 1)))
    leave
    return type

/-- Reads a type. -/
def type (table : Table TypeRef) : SignatureReader TypeSig := do
  typeWithin table (maxDepth - 1 - (← get).depth)

/-- Reads `n` types. -/
def types (table : Table TypeRef) : Nat → SignatureReader (List TypeSig)
  | 0 => return []
  | n + 1 => do
    let t ← type table
    let ts ← types table n
    return t :: ts

/-- Reads a method signature. -/
def method (table : Table TypeRef) : SignatureReader MethodSig := do
  let mark ← lift Reader.uint8
  if mark ≠ 0 ∧ mark ≠ ElementCode.hasThis then
    throw (.malformed (.callingConvention mark))
  let count ← lift Reader.count
  let ret ← type table
  let params ← types table count
  return ⟨mark = ElementCode.hasThis, ret, params⟩

/-- Reads a field signature. -/
def field (table : Table TypeRef) : SignatureReader TypeSig := do
  let mark ← lift Reader.uint8
  if mark ≠ ElementCode.field then
    throw (.malformed (.notFieldSignature mark))
  type table

/-- Reads signatures from depth 0 on. -/
def fresh {α : Type} (r : SignatureReader α) : Reader α := fun c =>
  match r ⟨c, 0⟩ with
  | .ok a s => .ok a s.cursor
  | .error e s => .error e s.cursor

end SignatureReader

end HookWeave

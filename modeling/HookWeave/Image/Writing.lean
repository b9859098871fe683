import HookWeave.Code.Encoded
import HookWeave.Image.Format
import HookWeave.Module

/-!
# Writing module images

`Module.toBytes` writes the definitions first, which fills the tables with all that they refer to,
and puts the tables in front of them.
-/

namespace HookWeave

namespace Encoding

/-- Bytes preceded by their number. -/
def blob (bytes : Bytes) : Except Fault Bytes := do
  return (← count bytes.length) ++ bytes

end Encoding

namespace Image

/-- The tables of an image that is being written. Type specifications and member references are
kept as they are written. -/
structure Builder where
  strings : Table String
  typeRefs : Table TypeRef
  typeSpecs : Table Bytes
  members : Table Bytes

/-- The tables before anything is written. -/
def Builder.empty : Builder :=
  ⟨.empty, .empty, .empty, .empty⟩

/-- A computation that may add to the tables. -/
abbrev Building := StateT Builder (Except Fault)

namespace Building

/-- A computation that adds type references only. -/
def interning {α : Type} (x : Interning α) : Building α := fun b => do
  let (a, typeRefs) ← x b.typeRefs
  return (a, { b with typeRefs })

/-- The row of a string. -/
def stringRow (s : String) : Building Nat :=
  modifyGet fun b =>
    let (row, strings) := b.strings.intern s
    (row, { b with strings })

/-- The row of an encoded type specification. -/
def typeSpecRow (bytes : Bytes) : Building Nat :=
  modifyGet fun b =>
    let (row, typeSpecs) := b.typeSpecs.intern bytes
    (row, { b with typeSpecs })

/-- The row of an encoded member reference. -/
def memberRow (bytes : Bytes) : Building Nat :=
  modifyGet fun b =>
    let (row, members) := b.members.intern bytes
    (row, { b with members })

/-- The row of a member reference with an encoded signature. -/
def member (kind : MemberKind) (owner : TypeRef) (name : String) (sig : Bytes) : Building Nat := do
  let owner ← interning owner.encode
  let name ← Encoding.string name
  let sig ← Encoding.blob sig
  memberRow (kind.code :: (owner ++ (name ++ sig)))

/-- The row of a method reference. -/
def method (m : MethodRef) : Building Nat := do
  let sig ← interning m.sig.encode
  member .method m.owner m.name sig

/-- The row of a field reference. -/
def field (f : FieldRef) : Building Nat := do
  let sig ← interning f.type.encodeField
  member .field f.owner f.name sig

/-- The tables as an allocator of tokens. -/
def allocator : TokenAllocator Builder where
  method m := do
    let row ← method m
    Token.ofParts Token.memberTable row
  field f := do
    let row ← field f
    Token.ofParts Token.memberTable row
  type t := do
    let bytes ← interning t.encode
    let row ← typeSpecRow bytes
    Token.ofParts Token.typeTable row
  string s := do
    let row ← stringRow s
    Token.ofParts Token.stringTable row

/-- Elements one after another. -/
def writeConcat {α : Type} (write : α → Building Bytes) : List α → Building Bytes
  | [] => return []
  | a :: as => do
    let front ← write a
    let back ← writeConcat write as
    return front ++ back

/-- A list preceded by its number of elements. -/
def writeList {α : Type} (write : α → Building Bytes) (as : List α) : Building Bytes := do
  let count ← Encoding.count as.length
  let elements ← writeConcat write as
  return count ++ elements

/-! ## Attributes -/

mutual

/-- Writes an argument of an attribute. -/
def writeArgument : AttributeArgument → Building Bytes
  | .null => return [ArgumentTag.null]
  | .bool b => return [ArgumentTag.bool, if b then 1 else 0]
  | .int32 v => return ArgumentTag.int32 :: Encoding.int32 v
  | .string s => return ArgumentTag.string :: (← Encoding.string s)
  | .type t => return ArgumentTag.type :: (← interning t.encode)
  | .array elements => do
    let count ← Encoding.count elements.length
    let elements ← writeArguments elements
    return ArgumentTag.array :: (count ++ elements)

/-- Writes arguments one after another. -/
def writeArguments : List AttributeArgument → Building Bytes
  | [] => return []
  | a :: as => do
    let front ← writeArgument a
    let back ← writeArguments as
    return front ++ back

end

/-- Writes an attribute. -/
def writeAttribute (a : Attribute) : Building Bytes := do
  let row ← method a.constructor
  let constructor ← Encoding.compressed row
  let count ← Encoding.count a.arguments.length
  let arguments ← writeArguments a.arguments
  return constructor ++ (count ++ arguments)

/-! ## Bodies -/

/-- The length of a region between two offsets. -/
def regionLength (start stop : Nat) : Except Fault UInt32 :=
  if start ≤ stop then .ok (UInt32.ofNat (stop - start))
  else .error (.malformed (.clauseEndsEarly start))

/-- Writes an exception clause of code. -/
def writeClause (code : EncodedBody) (c : ExceptionClause) : Building Bytes := do
  let tryStart ← code.offsetOf (some c.tryStart)
  let tryEnd ← code.offsetOf c.tryEnd
  let handlerStart ← code.offsetOf (some c.handlerStart)
  let handlerEnd ← code.offsetOf c.handlerEnd
  let tryLength ← regionLength tryStart tryEnd
  let handlerLength ← regionLength handlerStart handlerEnd
  let catchType ← interning (TypeRef.encodeOption c.catchType)
  return Encoding.uint16 c.flags ++ (Encoding.uint32 (UInt32.ofNat tryStart)
    ++ (Encoding.uint32 tryLength ++ (Encoding.uint32 (UInt32.ofNat handlerStart)
    ++ (Encoding.uint32 handlerLength ++ catchType))))

/-- Writes a method body. -/
def writeBody (b : MethodBody) : Building Bytes := do
  let locals ← writeList (fun t => interning (TypeSig.encode t)) b.locals
  let encoded ← EncodedBody.ofList b.instructions allocator
  let code ← Encoding.blob encoded.code
  let clauses ← writeList (writeClause encoded) b.clauses
  return Encoding.uint16 b.maxStack ++ ((if b.initLocals then 1 else 0) :: (locals
    ++ (code ++ clauses)))

/-! ## Definitions -/

/-- Writes a field. -/
def writeField (f : FieldDeclaration) : Building Bytes := do
  let name ← Encoding.string f.name
  let sig ← interning f.type.encodeField
  let sig ← Encoding.blob sig
  let attributes ← writeList writeAttribute f.attributes
  return Encoding.uint16 f.flags ++ (name ++ (sig ++ attributes))

/-- Writes the body of a method, if it has one. -/
def writeBody? : Option MethodBody → Building Bytes
  | none => return [0]
  | some b => return 1 :: (← writeBody b)

/-- Writes a method. -/
def writeMethod (m : MethodDeclaration) : Building Bytes := do
  let name ← Encoding.string m.name
  let sig ← interning m.sig.encode
  let sig ← Encoding.blob sig
  let params ← writeList (fun p => Encoding.string p.name) m.params
  let attributes ← writeList writeAttribute m.attributes
  let body ← writeBody? m.body
  return Encoding.uint16 m.flags ++ (name ++ (sig ++ (params ++ (attributes ++ body))))

/-- Writes a type. -/
def writeType (t : TypeDeclaration) : Building Bytes := do
  let space ← Encoding.string t.space
  let name ← Encoding.string t.name
  let base ← interning (TypeRef.encodeOption t.base)
  let interfaces ← writeList (fun i => interning (TypeRef.encode i)) t.interfaces
  let attributes ← writeList writeAttribute t.attributes
  let fields ← writeList writeField t.fields
  let methods ← writeList writeMethod t.methods
  return Encoding.uint32 t.flags ++ (space ++ (name ++ (base ++ (interfaces
    ++ (attributes ++ (fields ++ methods))))))

end Building

/-! ## The tables themselves -/

/-- Elements that need no tables, one after another. -/
def writeConcat {α : Type} (write : α → Except Fault Bytes) : List α → Except Fault Bytes
  | [] => .ok []
  | a :: as => do
    let front ← write a
    let back ← writeConcat write as
    return front ++ back

/-- Such a list preceded by its number of elements. -/
def writeList {α : Type} (write : α → Except Fault Bytes) (as : List α) : Except Fault Bytes := do
  let count ← Encoding.count as.length
  let elements ← writeConcat write as
  return count ++ elements

/-- Writes a type reference. -/
def writeTypeRef (t : TypeRef) : Except Fault Bytes := do
  let scope ← Encoding.string t.scope
  let space ← Encoding.string t.space
  let name ← Encoding.string t.name
  return scope ++ (space ++ name)

/-- Writes the tables. -/
def Builder.encode (b : Builder) : Except Fault Bytes := do
  let strings ← writeList Encoding.string b.strings.rows
  let typeRefs ← writeList writeTypeRef b.typeRefs.rows
  let typeSpecs ← writeList Encoding.blob b.typeSpecs.rows
  let members ← writeList pure b.members.rows
  return strings ++ (typeRefs ++ (typeSpecs ++ members))

end Image

/-- The image of a module. -/
def Module.toBytes (m : Module) : Except Fault Bytes := do
  let (definitions, builder) ← (Image.Building.writeList Image.Building.writeType m.types) .empty
  let name ← Encoding.string m.name
  let tables ← builder.encode
  let references ← Image.writeList Encoding.string m.references
  return Image.magic ++ (Encoding.uint16 Image.version ++ (name ++ (tables
    ++ (references ++ definitions))))

end HookWeave

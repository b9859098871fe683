import HookWeave.Code.Decoded
import HookWeave.Image.Format
import HookWeave.Module

/-!
# Reading module images

`Module.ofBytes` reads a complete image: the tables first, then the definitions that refer to
them. Nothing may be left over, neither behind the image nor inside a signature.
-/

namespace HookWeave

namespace Reader

/-- A value in bytes of its own, which are preceded by their number and must be used up. -/
def blob {α : Type} (what : String) (r : Reader α) : Reader α := do
  let size ← count
  let bytes ← take size
  match r.run (.start bytes) with
  | .ok a c => if c.hasMore then malformed (.trailingBytes what c.pos) else return a
  | .error e _ => throw e

/-- A list preceded by its number of elements. -/
def list {α : Type} (r : Reader α) : Reader (List α) := do
  times r (← count)

/-- A result that may be a fault. -/
def ofExcept {α : Type} : Except Fault α → Reader α
  | .ok a => return a
  | .error e => throw e

end Reader

namespace Image

/-- What a member reference names. -/
inductive MemberRef where
  | method (method : MethodRef)
  | field (field : FieldRef)

/-- The tables of an image. -/
structure Tables where
  strings : List String
  typeRefs : Table TypeRef
  typeSpecs : List TypeSig
  members : List MemberRef

namespace Tables

/-! ## Tokens -/

/-- The row that a token names. -/
def row {α : Type} (rows : List α) (t : Token) : Except Fault α :=
  match t.row with
  | 0 => .error (.malformed (.tokenRowMissing t.value))
  | index + 1 =>
    match rows[index]? with
    | some a => .ok a
    | none => .error (.malformed (.tokenRowMissing t.value))

/-- The member that a token names. -/
def member (tables : Tables) (t : Token) : Except Fault MemberRef :=
  if t.table = Token.memberTable then row tables.members t
  else .error (.malformed (.tokenUse t.value .member))

/-- The tables as a resolver of tokens. -/
def resolver (tables : Tables) : TokenResolver where
  method t := do
    match ← tables.member t with
    | .method m => return m
    | .field _ => throw (.malformed (.tokenUse t.value .method))
  field t := do
    match ← tables.member t with
    | .field f => return f
    | .method _ => throw (.malformed (.tokenUse t.value .field))
  type t :=
    if t.table = Token.typeTable then row tables.typeSpecs t
    else .error (.malformed (.tokenUse t.value .type))
  string t :=
    if t.table = Token.stringTable then row tables.strings t
    else .error (.malformed (.tokenUse t.value .string))

/-! ## The tables themselves -/

/-- Reads a type reference. -/
def readTypeRef : Reader TypeRef := do
  let scope ← Reader.string
  let space ← Reader.string
  let name ← Reader.string
  return ⟨scope, space, name⟩

/-- Reads a type specification. -/
def readTypeSpec (typeRefs : Table TypeRef) : Reader TypeSig :=
  Reader.blob "type specification" (SignatureReader.type typeRefs).fresh

/-- Reads the signature of a member reference, which depends on its kind. -/
def readMemberSig (typeRefs : Table TypeRef) (kind : UInt8) (owner : TypeRef) (name : String) :
    Reader MemberRef :=
  if kind = MemberKind.method.code then
    (fun sig => .method ⟨owner, name, sig⟩) <$> (SignatureReader.method typeRefs).fresh
  else if kind = MemberKind.field.code then
    (fun type => .field ⟨owner, name, type⟩) <$> (SignatureReader.field typeRefs).fresh
  else Reader.malformed (.memberKind kind)

/-- Reads a member reference. -/
def readMember (typeRefs : Table TypeRef) : Reader MemberRef := do
  let kind ← Reader.uint8
  let owner ← typeRefs.readTypeRef
  let name ← Reader.string
  Reader.blob "member reference signature" (readMemberSig typeRefs kind owner name)

/-- Reads the tables. -/
def read : Reader Tables := do
  let strings ← Reader.list Reader.string
  let typeRefs : Table TypeRef := ⟨← Reader.list readTypeRef⟩
  let typeSpecs ← Reader.list (readTypeSpec typeRefs)
  let members ← Reader.list (readMember typeRefs)
  return ⟨strings, typeRefs, typeSpecs, members⟩

/-! ## Attributes -/

/-- Reads an argument of an attribute whose arrays nest less than `levels` deep. -/
def readArgument (tables : Tables) : (levels : Nat) → Reader AttributeArgument
  | 0 => throw (.recursionLimit maxArgumentDepth)
  | levels + 1 => do
    let tag ← Reader.uint8
    if tag = ArgumentTag.null then
      return .null
    else if tag = ArgumentTag.bool then
      return .bool ((← Reader.uint8) ≠ 0)
    else if tag = ArgumentTag.int32 then
      return .int32 (← Reader.int32)
    else if tag = ArgumentTag.string then
      return .string (← Reader.string)
    else if tag = ArgumentTag.type then
      return .type (← tables.typeRefs.readTypeRef)
    else if tag = ArgumentTag.array then
      return .array (← Reader.list (readArgument tables levels))
    else
      Reader.malformed (.argumentTag tag)

/-- Reads the constructor of an attribute by its row. -/
def readConstructor (tables : Tables) : Reader MethodRef := do
  match ← Reader.row with
  | none => Reader.malformed .attributeConstructorMissing
  | some index =>
    match tables.members[index]? with
    | some (.method m) => return m
    | _ => Reader.malformed (.attributeNotMethod (index + 1))

/-- Reads an attribute. -/
def readAttribute (tables : Tables) : Reader Attribute := do
  let constructor ← tables.readConstructor
  let arguments ← Reader.list (tables.readArgument maxArgumentDepth)
  return ⟨constructor, arguments⟩

/-! ## Bodies -/

/-- The flags of an exception clause that the format admits. -/
def isClauseFlags (flags : UInt16) : Bool :=
  flags = ExceptionClause.catchFlags || flags = ExceptionClause.finallyFlags
    || flags = ExceptionClause.faultFlags

/-- The first instruction of a region at an offset. -/
def regionStart (code : DecodedBody) (offset : Nat) : Except Fault InstrId := do
  match ← code.instructionAt offset with
  | some id => return id
  | none => throw (.malformed .clauseStartsAtEnd)

/-- The instruction behind a region; none if the region goes to the end of the body. -/
def regionEnd (code : DecodedBody) (offset length : Nat) : Except Fault (Option InstrId) :=
  if offset + length < UInt32.size then code.instructionAt (offset + length)
  else .error (.malformed .clauseLength)

/-- Reads an exception clause of code. -/
def readClause (tables : Tables) (code : DecodedBody) : Reader ExceptionClause := do
  let flags ← Reader.uint16
  let tryOffset := (← Reader.uint32).toNat
  let tryLength := (← Reader.uint32).toNat
  let handlerOffset := (← Reader.uint32).toNat
  let handlerLength := (← Reader.uint32).toNat
  let catchType ← tables.typeRefs.readTypeRef?
  if !isClauseFlags flags then
    Reader.malformed (.clauseFlags flags)
  else if (flags = ExceptionClause.catchFlags) ≠ catchType.isSome then
    Reader.malformed (.clauseCatchType handlerOffset)
  else
    let tryStart ← Reader.ofExcept (regionStart code tryOffset)
    let tryEnd ← Reader.ofExcept (regionEnd code tryOffset tryLength)
    let handlerStart ← Reader.ofExcept (regionStart code handlerOffset)
    let handlerEnd ← Reader.ofExcept (regionEnd code handlerOffset handlerLength)
    return ⟨flags, tryStart, tryEnd, handlerStart, handlerEnd, catchType⟩

/-- Reads the mark that says whether locals hold zeros on entry. -/
def readInit : Reader Bool := do
  let mark ← Reader.uint8
  if mark = 0 then
    return false
  else if mark = 1 then
    return true
  else
    Reader.malformed (.initFlag mark)

/-- Reads a method body. -/
def readBody (tables : Tables) : Reader MethodBody := do
  let maxStack ← Reader.uint16
  let init ← readInit
  let locals ← Reader.list (SignatureReader.type tables.typeRefs).fresh
  let size ← Reader.count
  let bytes ← Reader.take size
  let code ← Reader.ofExcept (DecodedBody.ofBytes bytes tables.resolver)
  let clauses ← Reader.list (tables.readClause code)
  return ⟨maxStack, init, locals, code.instructions, clauses⟩

/-! ## Definitions -/

/-- Reads a field. -/
def readField (tables : Tables) : Reader FieldDeclaration := do
  let flags ← Reader.uint16
  let name ← Reader.string
  let type ← Reader.blob "field signature" (SignatureReader.field tables.typeRefs).fresh
  let attributes ← Reader.list tables.readAttribute
  return ⟨name, type, flags, attributes⟩

/-- Reads the names of parameters whose types are known. -/
def readParams : List TypeSig → Reader (List Parameter)
  | [] => return []
  | type :: types => do
    let name ← Reader.string
    let params ← readParams types
    return ⟨name, type⟩ :: params

/-- Reads the body of the method of a name, if there is one. -/
def readBody? (tables : Tables) (method : String) : Reader (Option MethodBody) := do
  let mark ← Reader.uint8
  if mark = 0 then
    return none
  else if mark = 1 then
    return some (← tables.readBody)
  else
    Reader.malformed (.bodyMarker mark method)

/-- Reads a method. Its signature repeats what the flags say about a receiver and must agree. -/
def readMethod (tables : Tables) : Reader MethodDeclaration := do
  let flags ← Reader.uint16
  let name ← Reader.string
  let sig ← Reader.blob "method signature" (SignatureReader.method tables.typeRefs).fresh
  if sig.hasThis = (flags &&& MethodDeclaration.staticFlag = MethodDeclaration.staticFlag) then
    Reader.malformed (.conventionContradictsFlags name)
  let count ← Reader.count
  if count ≠ sig.params.length then
    Reader.malformed (.parameterCount name count sig.params.length)
  let params ← readParams sig.params
  let attributes ← Reader.list tables.readAttribute
  let body ← tables.readBody? name
  return ⟨name, flags, params, sig.ret, attributes, body⟩

/-- Reads a type. -/
def readType (tables : Tables) : Reader TypeDeclaration := do
  let flags ← Reader.uint32
  let space ← Reader.string
  let name ← Reader.string
  let base ← tables.typeRefs.readTypeRef?
  let interfaces ← Reader.list tables.typeRefs.readTypeRef
  let attributes ← Reader.list tables.readAttribute
  let fields ← Reader.list tables.readField
  let methods ← Reader.list tables.readMethod
  return ⟨space, name, flags, base, interfaces, attributes, fields, methods⟩

end Tables

/-- Reads an image from its magic to its last type. -/
def read : Reader Module := do
  let found ← Reader.take magic.length
  if found ≠ magic then
    Reader.malformed (.magic found)
  let foundVersion ← Reader.uint16
  if foundVersion ≠ version then
    Reader.malformed (.version foundVersion.toNat)
  let name ← Reader.string
  let tables ← Tables.read
  let references ← Reader.list Reader.string
  let types ← Reader.list tables.readType
  if (← get).hasMore then
    Reader.malformed (.trailingData (← Reader.position))
  return .ofParts name references types

end Image

/-- The module that an image holds. -/
def Module.ofBytes (data : Bytes) : Except Fault Module := do
  let file ← FileData.ofBytes data
  Image.read.value file.bytes

end HookWeave

/-!
# Signatures

The types of values, and the references by which code and declarations name types, methods and
fields of any module.
-/

namespace HookWeave

/-- A type by name: the module that declares it, its namespace and its simple name. -/
structure TypeRef where
  scope : String
  space : String
  name : String
  deriving DecidableEq, Repr, Hashable

/-- The name with its namespace, which is left out where it is empty. -/
def TypeRef.fullName (t : TypeRef) : String :=
  if t.space.isEmpty then t.name else t.space ++ "." ++ t.name

/-- A member of the type by name, without the scope. -/
def TypeRef.memberName (t : TypeRef) (member : String) : String :=
  t.fullName ++ "::" ++ member

/-- The scope in brackets and the full name. -/
def TypeRef.render (t : TypeRef) : String :=
  "[" ++ t.scope ++ "]" ++ t.fullName

/-- The types built into the instruction set. -/
inductive Primitive where
  | void | bool | char
  | int8 | uint8 | int16 | uint16 | int32 | uint32 | int64 | uint64
  | float32 | float64
  | string | object
  | nativeInt | nativeUint
  deriving DecidableEq, Repr

/-- The spelling of a built-in type. -/
def Primitive.render : Primitive → String
  | .void => "void"
  | .bool => "bool"
  | .char => "char"
  | .int8 => "int8"
  | .uint8 => "uint8"
  | .int16 => "int16"
  | .uint16 => "uint16"
  | .int32 => "int32"
  | .uint32 => "uint32"
  | .int64 => "int64"
  | .uint64 => "uint64"
  | .float32 => "float32"
  | .float64 => "float64"
  | .string => "string"
  | .object => "object"
  | .nativeInt => "native int"
  | .nativeUint => "native uint"

/-- The type of a value. -/
inductive TypeSig where
  | prim (type : Primitive)
  /-- A reference type. -/
  | refType (type : TypeRef)
  /-- A value type. -/
  | valueType (type : TypeRef)
  /-- The address of a value. -/
  | byRef (target : TypeSig)
  /-- A one-dimensional array. -/
  | array (element : TypeSig)
  deriving DecidableEq, Repr

namespace TypeSig

/-- The type of what returns nothing. -/
abbrev void : TypeSig := .prim .void

/-- The type names no value. -/
def isVoid (s : TypeSig) : Bool :=
  s = void

/-- The type is an address. -/
def isByRef : TypeSig → Bool
  | byRef _ => true
  | _ => false

/-- What an address type points at. -/
def target? : TypeSig → Option TypeSig
  | byRef t => some t
  | _ => none

/-- The type that a class or value type names. -/
def typeRef? : TypeSig → Option TypeRef
  | refType t | valueType t => some t
  | _ => none

/-- How a type is written in messages. -/
def render : TypeSig → String
  | prim p => p.render
  | refType t => "class " ++ t.render
  | valueType t => "valuetype " ++ t.render
  | byRef t => t.render ++ "&"
  | array t => t.render ++ "[]"

/-- How many address and array constructors stand in front of the innermost type. -/
def nesting : TypeSig → Nat
  | byRef t | array t => t.nesting + 1
  | _ => 0

end TypeSig

/-- What a method takes and gives back. An instance method takes its receiver besides `params`. -/
structure MethodSig where
  hasThis : Bool
  ret : TypeSig
  params : List TypeSig
  deriving DecidableEq, Repr

/-- The number of values a call takes from the stack. -/
def MethodSig.argCount (s : MethodSig) : Nat :=
  s.params.length + s.hasThis.toNat

/-- A method by name. -/
structure MethodRef where
  owner : TypeRef
  name : String
  sig : MethodSig
  deriving DecidableEq, Repr

/-- The declaring type and the name. -/
def MethodRef.render (m : MethodRef) : String :=
  m.owner.render ++ "::" ++ m.name

/-- A field by name. -/
structure FieldRef where
  owner : TypeRef
  name : String
  type : TypeSig
  deriving DecidableEq, Repr

/-- The declaring type and the name. -/
def FieldRef.render (f : FieldRef) : String :=
  f.owner.render ++ "::" ++ f.name

end HookWeave

import HookWeave.Code.Body

/-!
# Declarations

What a module declares: types with their fields and methods, and the attributes on each of them.
Flags are kept as they are, with bits that have no meaning here.
-/

namespace HookWeave

/-- An argument of an attribute. -/
inductive AttributeArgument where
  | null
  | bool (value : Bool)
  | int32 (value : Int32)
  | string (value : String)
  | type (type : TypeRef)
  | array (elements : List AttributeArgument)
  deriving Repr

namespace AttributeArgument

/-- The string that the argument is. -/
def string? : AttributeArgument → Option String
  | string s => some s
  | _ => none

/-- The type that the argument is. -/
def type? : AttributeArgument → Option TypeRef
  | type t => some t
  | _ => none

end AttributeArgument

/-- An attribute: the constructor that makes it and the arguments. -/
structure Attribute where
  constructor : MethodRef
  arguments : List AttributeArgument
  deriving Repr

/-- The attribute's type has that simple name. -/
def Attribute.isNamed (name : String) (a : Attribute) : Bool :=
  a.constructor.owner.name = name

/-- A parameter of a method. -/
structure Parameter where
  name : String
  type : TypeSig
  deriving DecidableEq, Repr

/-- A field of a type. -/
structure FieldDeclaration where
  name : String
  type : TypeSig
  flags : UInt16
  attributes : List Attribute

namespace FieldDeclaration

/-- The flags of a field that only its own type sees. -/
def privateFlags : UInt16 := 0x0001

/-- The flag of a field that all instances share. -/
def staticFlag : UInt16 := 0x0010

/-- All instances share the field. -/
def isStatic (f : FieldDeclaration) : Bool :=
  f.flags &&& staticFlag = staticFlag

end FieldDeclaration

/-- A method of a type. -/
structure MethodDeclaration where
  name : String
  flags : UInt16
  params : List Parameter
  ret : TypeSig
  attributes : List Attribute
  body : Option MethodBody

namespace MethodDeclaration

/-- The bits of the flags that say who may call the method. -/
def accessMask : UInt16 := 0x0007

/-- The flag of a method without a receiver. -/
def staticFlag : UInt16 := 0x0010

/-- The flag of a name with a meaning to the runtime. -/
def runtimeNameFlag : UInt16 := 0x1000

/-- The name of constructors. -/
def constructorName : String := ".ctor"

/-- The flags of a public constructor. -/
def constructorFlags : UInt16 := 0x1886

/-- Flags give exactly that access. -/
def hasAccess (flags access : UInt16) : Bool :=
  flags &&& accessMask = access

/-- A public constructor without a body. -/
def ofConstructor (params : List Parameter) : MethodDeclaration :=
  ⟨constructorName, constructorFlags, params, .void, [], none⟩

/-- The method has no receiver. -/
def isStatic (m : MethodDeclaration) : Bool :=
  m.flags &&& staticFlag = staticFlag

/-- The method makes instances. -/
def isConstructor (m : MethodDeclaration) : Bool :=
  m.name = constructorName && m.flags &&& runtimeNameFlag = runtimeNameFlag

/-- The method gives a value back. -/
def returnsValue (m : MethodDeclaration) : Bool :=
  !m.ret.isVoid

/-- The number of arguments, the receiver included. -/
def argCount (m : MethodDeclaration) : Nat :=
  m.params.length + (!m.isStatic).toNat

/-- The signature. -/
def sig (m : MethodDeclaration) : MethodSig :=
  ⟨!m.isStatic, m.ret, m.params.map (·.type)⟩

/-- The method by name, as a member of a type. -/
def reference (m : MethodDeclaration) (owner : TypeRef) : MethodRef :=
  ⟨owner, m.name, m.sig⟩

/-- The attributes of a name. -/
def attributesNamed (m : MethodDeclaration) (name : String) : List Attribute :=
  m.attributes.filter (·.isNamed name)

/-- An attribute has that name. -/
def hasAttribute (m : MethodDeclaration) (name : String) : Bool :=
  m.attributes.any (·.isNamed name)

end MethodDeclaration

/-- A fragment occurs in a text. -/
def occursIn (fragment : List Char) : List Char → Bool
  | [] => fragment.isEmpty
  | c :: cs => fragment.isPrefixOf (c :: cs) || occursIn fragment cs

/-- A type of a module. -/
structure TypeDeclaration where
  space : String
  name : String
  flags : UInt32
  base : Option TypeRef
  interfaces : List TypeRef
  attributes : List Attribute
  fields : List FieldDeclaration
  methods : List MethodDeclaration

namespace TypeDeclaration

/-- The type by name, as a member of a module. -/
def reference (t : TypeDeclaration) (scope : String) : TypeRef :=
  ⟨scope, t.space, t.name⟩

/-- The name with its namespace, which is left out where it is empty. -/
def fullName (t : TypeDeclaration) : String :=
  (t.reference "").fullName

/-- The type derives from the roots of value types. -/
def isValueType (t : TypeDeclaration) : Bool :=
  match t.base with
  | some base => base.space = "System" && (base.name = "ValueType" || base.name = "Enum")
  | none => false

/-- The type implements an interface whose name holds a fragment. -/
def implementsLike (t : TypeDeclaration) (fragment : String) : Bool :=
  t.interfaces.any fun i => occursIn fragment.toList i.name.toList

/-- The type of a value of this type. -/
def sig (t : TypeDeclaration) (scope : String) : TypeSig :=
  if t.isValueType then .valueType (t.reference scope) else .refType (t.reference scope)

/-- The attributes of a name. -/
def attributesNamed (t : TypeDeclaration) (name : String) : List Attribute :=
  t.attributes.filter (·.isNamed name)

end TypeDeclaration

end HookWeave

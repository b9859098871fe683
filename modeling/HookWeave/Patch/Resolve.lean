import HookWeave.Patch.Config
import HookWeave.Store

/-!
# Resolving references

A reference to a type is resolved by opening the module that it names and looking the type up
there. Members are looked up in a resolved type, whose module is open already.
-/

namespace HookWeave

/-- A type found in an open module. -/
structure ResolvedType where
  /-- The file of the module. -/
  path : Path
  index : Nat
  /-- The type by name, as its module declares it. -/
  type : TypeRef
  deriving DecidableEq, Repr

/-- A method found in a resolved type. -/
structure ResolvedMethod where
  owner : ResolvedType
  index : Nat
  method : MethodRef
  deriving DecidableEq, Repr

/-- A field found in a resolved type. -/
structure ResolvedField where
  owner : ResolvedType
  index : Nat
  field : FieldRef
  deriving DecidableEq, Repr

/-- Finds a type, in the module of its scope. -/
def Config.resolveType (c : Config) (files : Files) (t : TypeRef) : Store.Edit ResolvedType := do
  let path := c.modulePath t.scope
  let m ← Store.openModule files path
  let index ← Store.ofExcept (m.findType t.fullName)
  let type ← Store.ofExcept (m.typeRef index)
  return ⟨path, index, type⟩

namespace ResolvedType

/-- A method of the type by its index. -/
def methodAt (t : ResolvedType) (m : Module) (index : Nat) : Except Fault ResolvedMethod := do
  let method ← m.methodAt t.index index
  return ⟨t, index, method.reference t.type⟩

/-- Finds a method of the type, the first of its name. -/
def resolveMethod (t : ResolvedType) (s : Store) (name : String) :
    Except Fault ResolvedMethod := do
  let m ← s.module t.path
  t.methodAt m (← m.findMethod t.index name)

/-- Finds the first constructor of the type. -/
def resolveConstructor (t : ResolvedType) (s : Store) : Except Fault ResolvedMethod := do
  let m ← s.module t.path
  t.methodAt m (← m.findConstructor t.index)

/-- Finds a field of the type. -/
def resolveField (t : ResolvedType) (s : Store) (name : String) : Except Fault ResolvedField := do
  let m ← s.module t.path
  let index ← m.findField t.index name
  let declaration ← m.typeAt t.index
  match declaration.fields[index]? with
  | some field => return ⟨t, index, ⟨t.type, field.name, field.type⟩⟩
  | none => throw .outOfBounds

end ResolvedType

end HookWeave

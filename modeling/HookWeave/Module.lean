import HookWeave.Declaration

/-!
# Modules

A module is a named collection of types and the names of the modules that it refers to. It knows
whether it was changed since it was made or written. Types are found by full name first and by
simple name second; members are found in one type by name, the first of several.
-/

namespace HookWeave

/-- A module. -/
structure Module where
  name : String
  /-- The modules that this one refers to. -/
  references : List String
  types : List TypeDeclaration
  /-- For every type the names that its methods were declared with, under which they are found. -/
  methodNames : List (List String)
  /-- The module was changed. -/
  dirty : Bool

namespace Module

/-- A module read from elsewhere. -/
def ofParts (name : String) (references : List String) (types : List TypeDeclaration) : Module :=
  ⟨name, references, types, types.map fun t => t.methods.map (·.name), false⟩

/-- A module that declares nothing. -/
def named (name : String) : Module :=
  ofParts name [] []

/-! ## Looking up -/

/-- Nothing of that kind and name is declared in the module. -/
def missing (m : Module) (kind : DeclarationKind) (name : String) : Fault :=
  .notDeclared kind name m.name

/-- Nothing of that kind and name is declared in a type of the module. -/
def missingIn (m : Module) (t : TypeDeclaration) (kind : DeclarationKind) (name : String) : Fault :=
  .notDeclared kind name (m.name ++ "::" ++ t.fullName)

/-- The index of the type of a name: the first with that full name, or else the first with that
simple name. -/
def findType (m : Module) (name : String) : Except Fault Nat :=
  match m.types.findIdx? (·.fullName = name) with
  | some index => .ok index
  | none =>
    match m.types.findIdx? (·.name = name) with
    | some index => .ok index
    | none => .error (m.missing .type name)

/-- The type at an index. -/
def typeAt (m : Module) (index : Nat) : Except Fault TypeDeclaration :=
  match m.types[index]? with
  | some t => .ok t
  | none => .error (m.missing .type ("#" ++ toString index))

/-- The type at an index, by name. -/
def typeRef (m : Module) (index : Nat) : Except Fault TypeRef := do
  return (← m.typeAt index).reference m.name

/-- The index of the method that was declared with a name. -/
def findMethod (m : Module) (typeIndex : Nat) (name : String) : Except Fault Nat := do
  let t ← m.typeAt typeIndex
  match (m.methodNames.getD typeIndex []).idxOf? name with
  | some index => return index
  | none => throw (m.missingIn t .method name)

/-- The index of the first constructor. -/
def findConstructor (m : Module) (typeIndex : Nat) : Except Fault Nat := do
  let t ← m.typeAt typeIndex
  match t.methods.findIdx? (·.isConstructor) with
  | some index => return index
  | none => throw (m.missingIn t .constructor MethodDeclaration.constructorName)

/-- The index of the field of a name. -/
def findField (m : Module) (typeIndex : Nat) (name : String) : Except Fault Nat := do
  let t ← m.typeAt typeIndex
  match t.fields.findIdx? (·.name = name) with
  | some index => return index
  | none => throw (m.missingIn t .field name)

/-- The type at an index has a field of that name. -/
def containsField (m : Module) (typeIndex : Nat) (name : String) : Bool :=
  match m.types[typeIndex]? with
  | some t => t.fields.any (·.name = name)
  | none => false

/-- The method at an index. -/
def methodAt (m : Module) (typeIndex methodIndex : Nat) : Except Fault MethodDeclaration := do
  let t ← m.typeAt typeIndex
  match t.methods[methodIndex]? with
  | some method => return method
  | none => throw (m.missingIn t .method ("#" ++ toString methodIndex))

/-! ## Changing -/

/-- The module as if it had just been written. -/
def clean (m : Module) : Module :=
  { m with dirty := false }

/-- Adds a type. Its index is the number of types before. -/
def addType (m : Module) (t : TypeDeclaration) : Module :=
  { m with
    types := m.types ++ [t]
    methodNames := m.methodNames ++ [t.methods.map (·.name)]
    dirty := true }

/-- Replaces a method by what `f` makes of it. -/
def modifyMethod (m : Module) (typeIndex methodIndex : Nat)
    (f : MethodDeclaration → MethodDeclaration) : Except Fault Module := do
  let _ ← m.methodAt typeIndex methodIndex
  return { m with
    types := m.types.modify typeIndex fun t =>
      { t with methods := t.methods.modify methodIndex f }
    dirty := true }

/-- Adds a field to a type that has none of that name, and gives its index. -/
def addField (m : Module) (typeIndex : Nat) (field : FieldDeclaration) :
    Except Fault (Nat × Module) := do
  let t ← m.typeAt typeIndex
  if m.containsField typeIndex field.name then
    throw (.malformed (.duplicateField t.fullName field.name))
  return (t.fields.length, { m with
    types := m.types.modify typeIndex fun t => { t with fields := t.fields ++ [field] }
    dirty := true })

/-- The module refers to a scope, or is it. -/
def knows (m : Module) (scope : String) : Bool :=
  scope = m.name || m.references.contains scope

/-- Makes the module refer to a scope. One that it knows changes nothing. -/
def importScope (m : Module) (scope : String) : Module :=
  if m.knows scope then m
  else { m with references := m.references ++ [scope], dirty := true }

end Module

end HookWeave

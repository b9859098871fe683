import HookWeave.Image.Reading
import Std.Data.HashMap

/-!
# Catalogs

A catalog is a module with tables from the names of its declarations to their indices. The tables are made
when the module is read, and kept up when types and fields are added; a method stays under the name that it
was declared with. Of several declarations with one name the first is listed.
-/

namespace HookWeave

/-- The indices of declarations by name. Members are listed together with the index of their type. -/
structure DeclarationIndex where
  types : Std.HashMap String Nat
  methods : Std.HashMap (Nat × String) Nat
  fields : Std.HashMap (Nat × String) Nat

namespace DeclarationIndex

/-- Lists keys with their positions, unless they are listed already. -/
def insertAll {κ : Type} [BEq κ] [Hashable κ] (table : Std.HashMap κ Nat) (keys : List κ) :
    Std.HashMap κ Nat :=
  keys.zipIdx.foldl (fun table entry => table.insertIfNew entry.1 entry.2) table

/-- Nothing is listed. -/
def empty : DeclarationIndex :=
  ⟨∅, ∅, ∅⟩

/-- Lists a type and its members. -/
def insertType (index : DeclarationIndex) (typeIndex : Nat) (t : TypeDeclaration) : DeclarationIndex where
  types := index.types.insertIfNew t.fullName typeIndex
  methods := insertAll index.methods (t.methods.map fun m => (typeIndex, m.name))
  fields := insertAll index.fields (t.fields.map fun f => (typeIndex, f.name))

/-- Lists types and their members. -/
def build (types : List TypeDeclaration) : DeclarationIndex :=
  types.zipIdx.foldl (fun index entry => index.insertType entry.2 entry.1) empty

end DeclarationIndex

/-- A module with tables of its declarations. -/
structure Catalog where
  name : String
  references : List String
  types : List TypeDeclaration
  index : DeclarationIndex
  dirty : Bool

namespace Catalog

/-- The catalog of a module read from elsewhere. -/
def ofParts (name : String) (references : List String) (types : List TypeDeclaration) : Catalog :=
  ⟨name, references, types, .build types, false⟩

/-- The catalog of a module that declares nothing. -/
def named (name : String) : Catalog :=
  ⟨name, [], [], .empty, false⟩

/-- The catalog of the module that an image holds. -/
def ofBytes (data : Bytes) : Except Fault Catalog := do
  let m ← Module.ofBytes data
  return .ofParts m.name m.references m.types

/-- The module as it is now. -/
def module (c : Catalog) : Module :=
  { Module.ofParts c.name c.references c.types with dirty := c.dirty }

/-! ## Looking up -/

/-- The index of the type of a name: the one listed with that full name, or else the first with that simple
name. -/
def findType (c : Catalog) (name : String) : Except Fault Nat :=
  match c.index.types[name]? with
  | some index => .ok index
  | none =>
    match c.types.findIdx? (·.name = name) with
    | some index => .ok index
    | none => .error (c.module.missing .type name)

/-- The index of a member that is listed for a type. -/
def findMember (c : Catalog) (kind : DeclarationKind) (table : Std.HashMap (Nat × String) Nat)
    (typeIndex : Nat) (name : String) : Except Fault Nat := do
  let t ← c.module.typeAt typeIndex
  match table[(typeIndex, name)]? with
  | some index => return index
  | none => throw (c.module.missingIn t kind name)

/-- The index of the method that was declared with a name. -/
def findMethod (c : Catalog) : Nat → String → Except Fault Nat :=
  c.findMember .method c.index.methods

/-- The index of the field of a name. -/
def findField (c : Catalog) : Nat → String → Except Fault Nat :=
  c.findMember .field c.index.fields

/-- A field of that name is listed for the type. -/
def containsField (c : Catalog) (typeIndex : Nat) (name : String) : Bool :=
  c.index.fields.contains (typeIndex, name)

/-! ## Changing -/

/-- A change of a catalog. What it did before it fails stays done. -/
abbrev Edit := EStateM Fault Catalog

/-- Adds a type, and gives its index. -/
def addType (t : TypeDeclaration) : Edit Nat := do
  let c ← get
  set { c with
    index := c.index.insertType c.types.length t
    types := c.types ++ [t]
    dirty := true }
  return c.types.length

/-- Adds a field to a type for which none of that name is listed, and gives its index. -/
def addField (typeIndex : Nat) (field : FieldDeclaration) : Edit Nat := do
  let c ← get
  let t ← MonadExcept.ofExcept (c.module.typeAt typeIndex)
  if c.containsField typeIndex field.name then
    throw (.malformed (.duplicateField t.fullName field.name))
  set { c with
    index := { c.index with
      fields := c.index.fields.insert (typeIndex, field.name) t.fields.length }
    types := c.types.modify typeIndex fun t => { t with fields := t.fields ++ [field] }
    dirty := true }
  return t.fields.length

/-- Replaces a method by what `f` makes of it. -/
def modifyMethod (typeIndex methodIndex : Nat) (f : MethodDeclaration → MethodDeclaration) : Edit Unit := do
  let c ← get
  let _ ← MonadExcept.ofExcept (c.module.methodAt typeIndex methodIndex)
  set { c with
    types := c.types.modify typeIndex fun t =>
      { t with methods := t.methods.modify methodIndex f }
    dirty := true }

/-- Makes the module refer to a scope, and tells whether it did not before. -/
def importScope (scope : String) : Edit Bool := do
  let c ← get
  if c.module.knows scope then
    return false
  set { c with
    references := c.references ++ [scope]
    dirty := true }
  return true

end Catalog

end HookWeave

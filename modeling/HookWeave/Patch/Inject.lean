import HookWeave.Patch.Resolve
import HookWeave.Text.Lowercase

/-!
# Adding fields

A patch may ask for fields of further types in the target's type. Such a field is private, named
after its type, and carries the marker attribute; a name that is taken is left as it is.
-/

namespace HookWeave

/-- The name of a field for a type: the type's name after an underscore, starting in lower case. -/
def injectedFieldName (typeName : String) : String :=
  match typeName.toList with
  | [] => "_"
  | c :: cs => "_" ++ String.ofList (Text.lower c) ++ String.ofList cs

/-- Adds a field to a type and the scopes that it brings with it to the references. -/
def Module.inject (m : Module) (typeIndex : Nat) (name : String) (type : TypeSig) (scope : String)
    (marker : MethodRef) : Except Fault Module := do
  let (_, m) ← m.addField typeIndex {
    name
    type
    flags := FieldDeclaration.privateFlags
    attributes := [⟨marker, []⟩] }
  return (m.importScope marker.owner.scope).importScope scope

/-- Adds a field of a type to the target and gives its name, unless the name is taken. -/
def Config.injectField (c : Config) (files : Files) (marker : MethodRef) (target : ResolvedType)
    (injected : TypeRef) : Store.Edit (Option String) := do
  let name := injectedFieldName injected.name
  let m ← Store.query (·.module target.path)
  if m.containsField target.index name then
    return none
  let resolved ← c.resolveType files injected
  let declaration ← Store.query fun s => do (← s.module resolved.path).typeAt resolved.index
  let type := declaration.sig resolved.type.scope
  Store.change target.path fun m =>
    return ((), ← m.inject target.index name type resolved.type.scope marker)
  return some name

end HookWeave

import HookWeave.Hook.Conventions
import HookWeave.Hook.Request
import HookWeave.Module

/-!
# Finding hooks

A type provides hooks if it implements an interface whose name holds the fragment of the
conventions. Every patch attribute on one of its methods gives one entry, a request or the reason
why there is none, so that an attribute that cannot be used hides no other.
-/

namespace HookWeave

/-- What a patch attribute gave. -/
structure ScannedHook where
  /-- The hook by name. -/
  hook : String
  request : Except Fault PatchRequest

namespace Conventions

/-- The type provides hooks. -/
def isProvider (c : Conventions) (t : TypeDeclaration) : Bool :=
  t.implementsLike c.provider

/-- When a method runs as a hook: it carries exactly one of the two attributes that say so. -/
def hookKind (c : Conventions) (hook : String) (m : MethodDeclaration) : Except Fault HookKind :=
  match m.hasAttribute c.beforeAttribute, m.hasAttribute c.afterAttribute with
  | true, true => .error (.conflictingKinds hook)
  | true, false => .ok .before
  | false, true => .ok .after
  | false, false => .error (.flawedPatch hook (.kindMissing c.beforeAttribute c.afterAttribute))

/-- The type of the field that an attribute asks for. -/
def injectedType (c : Conventions) (hook : String) (a : Attribute) : Except Fault TypeRef :=
  match a.arguments with
  | [.type t] => .ok t
  | _ => .error (.flawedPatch hook (.injectArguments c.injectAttribute))

/-- The request that a patch attribute makes on a method of a type. Fields are asked for by the
patch attribute itself, by attributes of the method and by attributes of the type, each type
once. -/
def request (c : Conventions) (scope : String) (t : TypeDeclaration) (m : MethodDeclaration)
    (a : Attribute) : Except Fault PatchRequest := do
  let owner := t.reference scope
  let hook := owner.memberName m.name
  let kind ← c.hookKind hook m
  let directive ← PatchDirective.ofAttribute hook a
  let asked := m.attributesNamed c.injectAttribute ++ t.attributesNamed c.injectAttribute
  let more ← asked.mapM (c.injectedType hook)
  return {
    targetType := directive.targetType
    targetMethod := directive.targetMethod
    hook := m.reference owner
    hookParams := m.params
    hookIsStatic := m.isStatic
    kind
    injected := (directive.injected ++ more).eraseDups }

/-- What the patch attributes of a method give. -/
def scanMethod (c : Conventions) (scope : String) (t : TypeDeclaration) (m : MethodDeclaration) :
    List ScannedHook :=
  (m.attributesNamed c.patchAttribute).map fun a =>
    ⟨(t.reference scope).memberName m.name, c.request scope t m a⟩

/-- What the patch attributes of a module give, in the order of its types, their methods and the
methods' attributes. -/
def scan (c : Conventions) (m : Module) : List ScannedHook :=
  (m.types.filter c.isProvider).flatMap fun t => t.methods.flatMap (c.scanMethod m.name t)

end Conventions

end HookWeave

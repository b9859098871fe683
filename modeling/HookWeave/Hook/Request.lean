import HookWeave.Declaration

/-!
# Patch requests

A patch attribute says in its arguments which method to patch and which fields to add
(`PatchDirective.ofArguments`). Together with the hook that carries it, it makes a patch request.
-/

namespace HookWeave

/-- When a hook runs. -/
inductive HookKind where
  /-- Before the target, which it may skip. -/
  | before
  /-- After the target, whose result it replaces. -/
  | after
  deriving DecidableEq, Repr

/-- The word for a kind of hook. -/
def HookKind.render : HookKind → String
  | before => "prefix"
  | after => "postfix"

/-- What the arguments of a patch attribute say. -/
structure PatchDirective where
  /-- The type that declares the target. -/
  targetType : TypeRef
  /-- The name of the target. -/
  targetMethod : String
  /-- The types of the fields to add to the target's type. -/
  injected : List TypeRef
  deriving DecidableEq, Repr

namespace PatchDirective

/-- The types in the list of types that may follow the first two arguments. -/
def injectedTypes : List AttributeArgument → Except AnnotationFlaw (List TypeRef)
  | [] | .null :: _ => .ok []
  | .array elements :: _ =>
    match elements.mapM AttributeArgument.type? with
    | some types => .ok types
    | none => .error .injectionElementNotType
  | _ :: _ => .error .injectionNotArray

/-- Reads the arguments: a type, the name of a method, and maybe a list of types. -/
def ofArguments : List AttributeArgument → Except AnnotationFlaw PatchDirective
  | [] => .error .targetTypeMissing
  | .type targetType :: arguments =>
    match arguments with
    | [] => .error .targetMethodMissing
    | .string targetMethod :: extra => do
      let injected ← injectedTypes extra
      if 1 < extra.length then
        throw .tooManyArguments
      return ⟨targetType, targetMethod, injected⟩
    | _ :: _ => .error .targetMethodNotString
  | _ :: _ => .error .targetTypeNotType

/-- Reads a patch attribute of a hook. -/
def ofAttribute (hook : String) (a : Attribute) : Except Fault PatchDirective :=
  (ofArguments a.arguments).mapError (.flawedPatch hook)

end PatchDirective

/-- A hook and the method that it is to be woven into. -/
structure PatchRequest where
  targetType : TypeRef
  targetMethod : String
  hook : MethodRef
  /-- The parameters of the hook, with their names. -/
  hookParams : List Parameter
  hookIsStatic : Bool
  kind : HookKind
  /-- The types of the fields to add to the target's type. -/
  injected : List TypeRef
  deriving DecidableEq, Repr

namespace PatchRequest

/-- The target by name. -/
def targetName (r : PatchRequest) : String :=
  r.targetType.memberName r.targetMethod

/-- The hook by name. -/
def hookName (r : PatchRequest) : String :=
  r.hook.owner.memberName r.hook.name

/-- The hook and its target. -/
def arrow (r : PatchRequest) : String :=
  r.hookName ++ " -> " ++ r.targetName

/-- The kind, the hook and its target. -/
def render (r : PatchRequest) : String :=
  r.kind.render ++ " " ++ r.arrow

end PatchRequest

end HookWeave

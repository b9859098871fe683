/-!
# Conventions

The names by which hooks are recognised: what marks the types that provide them, the attributes
that say what they do, and the parameters that take something other than an argument of the
target.
-/

namespace HookWeave

/-- The names by which hooks are recognised. -/
structure Conventions where
  /-- A fragment of the name of an interface: the types that implement one provide hooks. -/
  provider : String := "ICrossPatch"
  /-- The attribute that names a target: `(Type, string[, Type[]])`. -/
  patchAttribute : String := "CrossPatchAttribute"
  /-- The attribute of hooks that run before their target. -/
  beforeAttribute : String := "CrossPrefixAttribute"
  /-- The attribute of hooks that run after their target. -/
  afterAttribute : String := "CrossPostfixAttribute"
  /-- The attribute that asks for a field of a type: `(Type)`. -/
  injectAttribute : String := "CrossInjectAttribute"
  /-- The parameter that takes the address of the target's result. -/
  resultParameter : String := "__result"
  /-- The parameter that takes the receiver of the target. -/
  receiverParameter : String := "__instance"
  deriving DecidableEq, Repr

end HookWeave

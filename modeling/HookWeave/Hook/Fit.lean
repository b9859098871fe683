import HookWeave.Hook.Conventions
import HookWeave.Hook.Request

/-!
# Fitting hooks

A hook fits its target if it can be called with what the woven code passes to it
(`Weaving.check`): the arguments of the target in order, and, before the target, the address of
its result. What runs after the target gives a result of the target's type.
-/

namespace HookWeave

/-- A hook, the method that it is woven into, and the names of its special parameters. -/
structure Weaving where
  conventions : Conventions
  /-- The type that declares the target. -/
  owner : TypeRef
  target : MethodDeclaration
  request : PatchRequest

namespace Weaving

/-- The target by name. -/
def targetName (w : Weaving) : String :=
  w.owner.memberName w.target.name

/-- Fails because the hook does not fit. -/
def misfit {α : Type} (w : Weaving) (reason : Misfit) : Except Fault α :=
  .error (.misfit w.request.hookName w.targetName reason)

/-- The parameter is named as the one that takes the receiver. -/
def takesReceiver (w : Weaving) (p : Parameter) : Bool :=
  p.name = w.conventions.receiverParameter

/-- The parameter takes the address of the result. -/
def takesResult (w : Weaving) (p : Parameter) : Bool :=
  p.name = w.conventions.resultParameter && p.type.isByRef

/-- The type that a parameter for the result has: an address of what the target gives back, which
may be an address already. -/
def resultType (w : Weaving) : TypeSig :=
  if w.target.ret.isByRef then w.target.ret else .byRef w.target.ret

/-- The type can take the receiver of the target: it is the declaring type, an address of it, or
the root of all types. -/
def fitsReceiver (w : Weaving) (type : TypeSig) : Bool :=
  type = .prim .object || (type.target?.getD type).typeRef? = some w.owner

/-- The type can take an argument of the target, the receiver counted first. -/
def fitsArgument (w : Weaving) (position : Nat) (type : TypeSig) : Bool :=
  if w.target.isStatic then
    (w.target.params.map (·.type))[position]? = some type
  else
    match position with
    | 0 => w.fitsReceiver type
    | index + 1 => (w.target.params.map (·.type))[index]? = some type

/-- Fails if a parameter is named as the receiver where there is none. -/
def checkReceiver (w : Weaving) : Except Fault Unit :=
  match w.request.hookParams with
  | [] => .ok ()
  | first :: others =>
    if w.takesReceiver first && w.target.isStatic then
      w.misfit (.instanceOnStatic w.conventions.receiverParameter)
    else if others.any w.takesReceiver then
      w.misfit (.instanceNotFirst w.conventions.receiverParameter)
    else .ok ()

/-- Fails unless the target has a result whose address the parameter takes. -/
def checkResult (w : Weaving) (p : Parameter) : Except Fault Unit :=
  if w.target.ret.isVoid then
    w.misfit (.resultOnVoid w.conventions.resultParameter)
  else if p.type ≠ w.resultType then
    w.misfit (.resultType p.name p.type w.resultType)
  else .ok ()

/-- Fails unless every parameter can take what is passed for it: the result, or the next argument
of the target from `position` on. -/
def checkParameters (w : Weaving) : Nat → List Parameter → Except Fault Unit
  | _, [] => .ok ()
  | position, p :: params =>
    if w.request.kind = .before ∧ w.takesResult p then do
      w.checkResult p
      w.checkParameters position params
    else if w.target.argCount ≤ position then
      w.misfit (.tooManyArguments w.target.argCount)
    else if !w.fitsArgument position p.type then
      w.misfit (.argumentType p.name p.type position)
    else w.checkParameters (position + 1) params

/-- Fails if the hook replaces the result by one of another type. -/
def checkReturn (w : Weaving) : Except Fault Unit :=
  if w.request.kind = .after ∧ w.request.hook.sig.ret ≠ w.target.ret then
    w.misfit (.returnType w.request.hook.sig.ret w.target.ret)
  else .ok ()

/-- Fails unless the hook fits the target. -/
def check (w : Weaving) : Except Fault Unit := do
  if !w.request.hookIsStatic then
    w.misfit .hookNotStatic
  w.checkReceiver
  w.checkParameters 0 w.request.hookParams
  w.checkReturn

end Weaving

end HookWeave

import HookWeave.Proofs.Bytes.Gives
import HookWeave.Proofs.Image.RoundTrip
import Mathlib.Data.List.Dedup

/-!
# What a module mentions

An image names types, members and texts by rows of its tables, one row for each that the module
mentions. `Module.mentions` lists what takes a row, as often as it occurs, and the method signatures
besides; `Module.distinct` are the distinct ones of a table. What is mentioned can be written if its
names are short enough and its types nest no deeper than the reader admits (`Mention.Writable`).
-/

namespace HookWeave

/-- The tables of an image. -/
inductive TableKind where
  | strings | typeRefs | typeSpecs | members
  deriving DecidableEq, Repr

/-- What a module mentions: types by name, what code refers to, and method signatures. -/
inductive Mention where
  | typeRef (type : TypeRef)
  | reference (reference : Reference)
  | signature (sig : MethodSig)
  deriving DecidableEq

/-- The table in which the mention takes a row. A signature is written where it is used. -/
def Mention.table? : Mention → Option TableKind
  | typeRef _ => some .typeRefs
  | reference (.string _) => some .strings
  | reference (.type _) => some .typeSpecs
  | reference (.method _) | reference (.field _) => some .members
  | signature _ => none

/-! ## Mentions -/

/-- What a type mentions. -/
def TypeSig.mentions : TypeSig → List Mention
  | prim _ => []
  | refType t | valueType t => [.typeRef t]
  | byRef t | array t => t.mentions

/-- What a method signature mentions. -/
def MethodSig.mentions (s : MethodSig) : List Mention :=
  .signature s :: (s.ret.mentions ++ s.params.flatMap (·.mentions))

/-- What a reference mentions. -/
def Reference.mentions : Reference → List Mention
  | .method m => .reference (.method m) :: .typeRef m.owner :: m.sig.mentions
  | .field f => .reference (.field f) :: .typeRef f.owner :: f.type.mentions
  | .type t => .reference (.type t) :: t.mentions
  | .string s => [.reference (.string s)]

mutual

/-- What an argument of an attribute mentions. -/
def AttributeArgument.mentions : AttributeArgument → List Mention
  | .type t => [.typeRef t]
  | .array elements => mentionsAll elements
  | .null | .bool _ | .int32 _ | .string _ => []

/-- What arguments mention. -/
def AttributeArgument.mentionsAll : List AttributeArgument → List Mention
  | [] => []
  | a :: as => a.mentions ++ mentionsAll as

end

/-- What an attribute mentions. -/
def Attribute.mentions (a : Attribute) : List Mention :=
  (Reference.method a.constructor).mentions ++ AttributeArgument.mentionsAll a.arguments

/-- What an exception clause mentions. -/
def ExceptionClause.mentions (c : ExceptionClause) : List Mention :=
  c.catchType.toList.map .typeRef

/-- What a body mentions. -/
def MethodBody.mentions (b : MethodBody) : List Mention :=
  b.locals.flatMap (·.mentions)
    ++ (b.instructions.references.flatMap (·.mentions) ++ b.clauses.flatMap (·.mentions))

/-- What a field mentions. -/
def FieldDeclaration.mentions (f : FieldDeclaration) : List Mention :=
  f.type.mentions ++ f.attributes.flatMap (·.mentions)

/-- What a method mentions. -/
def MethodDeclaration.mentions (m : MethodDeclaration) : List Mention :=
  m.sig.mentions ++ (m.attributes.flatMap (·.mentions) ++ m.body.toList.flatMap (·.mentions))

/-- What a type declaration mentions. -/
def TypeDeclaration.mentions (t : TypeDeclaration) : List Mention :=
  t.base.toList.map .typeRef ++ (t.interfaces.map .typeRef ++ (t.attributes.flatMap (·.mentions)
    ++ (t.fields.flatMap (·.mentions) ++ t.methods.flatMap (·.mentions))))

/-- What a module mentions. -/
def Module.mentions (m : Module) : List Mention :=
  m.types.flatMap (·.mentions)

/-- The distinct mentions that take rows of a table. -/
def Module.distinct (m : Module) (table : TableKind) : List Mention :=
  (m.mentions.filter (·.table? = some table)).dedup

/-! ## What can be written -/

/-- What is mentioned has names of few enough bytes, parameters that can be counted, and types that
nest less deep than the reader admits. -/
def Mention.Writable : Mention → Prop
  | typeRef t => Text.Short t.scope ∧ Text.Short t.space ∧ Text.Short t.name
  | reference (.string s) => Text.Short s
  | reference (.type t) => t.Shallow
  | reference (.method m) => Text.Short m.name
  | reference (.field f) => Text.Short f.name ∧ f.type.Shallow
  | signature s => s.params.length ≤ Encoding.maxCompressed ∧ s.Shallow

end HookWeave

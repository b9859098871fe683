import HookWeave.Signature.Codec

/-!
# The format of module images

An image starts with `magic` and `version`. Then follow the name of the module; the tables of
strings, type references, type specifications and member references; the modules referred to; and
the type definitions, which name what they use by rows of the tables. Lists are preceded by their
number of elements, signatures and code by their size.
-/

namespace HookWeave.Image

/-- The first bytes of an image. -/
def magic : Bytes := [0x58, 0x50, 0x4D, 0x49]

/-- The version of the format. -/
def version : UInt16 := 1

/-- What kind of member a member reference names. -/
inductive MemberKind where
  | method | field
  deriving DecidableEq, Repr

/-- The byte for a kind of member. -/
def MemberKind.code : MemberKind → UInt8
  | .method => 0
  | .field => 1

namespace ArgumentTag

/-- The tag of no reference. -/
def null : UInt8 := 0x00

/-- The tag of a truth value. -/
def bool : UInt8 := 0x02

/-- The tag of a 32-bit integer. -/
def int32 : UInt8 := 0x08

/-- The tag of a string. -/
def string : UInt8 := 0x0E

/-- The tag of an array. -/
def array : UInt8 := 0x1D

/-- The tag of a type. -/
def type : UInt8 := 0x50

end ArgumentTag

/-- The nesting at which the arrays of an attribute's arguments are refused. -/
def maxArgumentDepth : Nat := 50

end HookWeave.Image

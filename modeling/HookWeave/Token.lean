import HookWeave.Fault

/-!
# Tokens

A token names a row of a table in encoded code: the table in the highest byte, the row, counted
from 1, in the others.
-/

namespace HookWeave

/-- The name of a table row in encoded code. -/
structure Token where
  value : UInt32
  deriving DecidableEq, Repr, Hashable

namespace Token

/-- The table of references to methods and fields. -/
def memberTable : UInt8 := 0x0A

/-- The table of type specifications. -/
def typeTable : UInt8 := 0x1B

/-- The table of strings. -/
def stringTable : UInt8 := 0x70

/-- The greatest row that a token can name. -/
def maxRow : Nat := 0xFFFFFF

/-- The token of a row. -/
def ofParts (table : UInt8) (row : Nat) : Except Fault Token :=
  if row ≤ maxRow then .ok ⟨UInt32.ofNat (table.toNat * 0x1000000 + row)⟩
  else .error (.malformed (.rowTooLarge row table))

/-- The table that the token names. -/
def table (t : Token) : UInt8 :=
  UInt8.ofNat (t.value.toNat / 0x1000000)

/-- The row that the token names. -/
def row (t : Token) : Nat :=
  t.value.toNat % 0x1000000

/-- The token names nothing. -/
def isNull (t : Token) : Bool :=
  t.value = 0

/-- The token in messages. -/
def render (t : Token) : String :=
  Text.hexWord t.value

/-- The token with its parts. -/
def describe (t : Token) : String :=
  "Token(" ++ t.render ++ ", table: 0x" ++ Text.hexPadded 2 t.table.toNat ++ ", row: "
    ++ toString t.row ++ ")"

end Token

end HookWeave

/-!
# Hexadecimal numbers

Numbers as offsets, tokens and opcode bytes are written in messages.
-/

namespace HookWeave.Text

/-- The lower-case hexadecimal digits of a number, without leading zeros. -/
def hex (n : Nat) : String :=
  String.ofList (Nat.toDigits 16 n)

/-- The lower-case hexadecimal digits of a number, filled up with zeros to `width`. -/
def hexPadded (width n : Nat) : String :=
  let digits := Nat.toDigits 16 n
  String.ofList (List.replicate (width - digits.length) '0' ++ digits)

/-- A byte as two capital hexadecimal digits. -/
def hexByteUpper (b : UInt8) : String :=
  (hexPadded 2 b.toNat).toUpper

/-- An offset: `0x` and at least four digits. -/
def hexOffset (n : Nat) : String :=
  "0x" ++ hexPadded 4 n

/-- A word: `0x` and eight digits. -/
def hexWord (w : UInt32) : String :=
  "0x" ++ hexPadded 8 w.toNat

end HookWeave.Text

import HookWeave.Bytes.Encoding

/-!
# Writing into a buffer

A writer appends to a buffer, or refuses a value. The bytes are put together from words with masks
and shifts, as `Parsing` takes them apart.
-/

namespace HookWeave

/-- A step that appends to a buffer, or refuses a value. -/
abbrev Writer := EStateM Fault Bytes

namespace Writer

/-- Appends bytes. -/
def extend (bytes : Bytes) : Writer Unit :=
  modify (· ++ bytes)

/-- Appends a byte. -/
def push (b : UInt8) : Writer Unit :=
  extend [b]

/-- The bytes of a word, highest first. -/
def bigEndian (v : UInt32) : Bytes :=
  [(v >>> 24).toUInt8, (v >>> 16).toUInt8, (v >>> 8).toUInt8, v.toUInt8]

/-- Appends an integer in one, two or four bytes, with the number of bytes in the leading bits. -/
def compressed (v : UInt32) : Writer Unit :=
  if v ≤ 0x7F then push v.toUInt8
  else if v ≤ 0x3FFF then extend [(0x80 : UInt8) ||| (v >>> 8).toUInt8, v.toUInt8]
  else if v ≤ 0x1FFFFFFF then extend (bigEndian (0xC0000000 ||| v))
  else throw (.malformed (.compressedTooLarge v.toNat))

/-- Appends a number of elements in compressed form. -/
def count (n : UInt64) : Writer Unit :=
  if n.toNat < UInt32.size then compressed n.toUInt32
  else throw (.malformed (.lengthTooLarge n.toNat))

/-- Appends a word in groups of seven bits, lowest first, each but the last with its high bit
set. -/
def sevenBit (v : UInt32) : Writer Unit :=
  if 0x80 ≤ v then do
    push (v.toUInt8 ||| 0x80)
    sevenBit (v >>> 7)
  else push v.toUInt8
termination_by v.toNat
decreasing_by
  have long : 0x80 ≤ v.toNat := ‹_›
  rw [UInt32.toNat_shiftRight, Nat.shiftRight_eq_div_pow]
  exact Nat.div_lt_self (by omega) (by decide)

/-- Appends a string: its size in groups of seven bits, and its UTF-8 bytes. -/
def string (s : String) : Writer Unit := do
  let bytes := Text.utf8 s
  if bytes.length < UInt32.size then
    sevenBit (UInt32.ofNat bytes.length)
    extend bytes
  else
    throw (.malformed (.stringTooLong bytes.length))

end Writer

end HookWeave

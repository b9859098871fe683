import HookWeave.Bytes.Cursor

/-!
# Encoding values as bytes

The encodings that `Reader` reads back, and access to encoded values at an offset of a buffer.
-/

namespace HookWeave

/-- The lowest `width` bytes of a number, lowest first. -/
def littleEndian : (width n : Nat) → Bytes
  | 0, _ => []
  | width + 1, n => UInt8.ofNat (n % 256) :: littleEndian width (n / 256)

namespace Encoding

/-- A 16-bit unsigned integer. -/
def uint16 (v : UInt16) : Bytes :=
  littleEndian 2 v.toNat

/-- A 32-bit unsigned integer. -/
def uint32 (v : UInt32) : Bytes :=
  littleEndian 4 v.toNat

/-- A 64-bit unsigned integer. -/
def uint64 (v : UInt64) : Bytes :=
  littleEndian 8 v.toNat

/-- An 8-bit signed integer. -/
def int8 (v : Int8) : Bytes :=
  [v.toUInt8]

/-- A 16-bit signed integer. -/
def int16 (v : Int16) : Bytes :=
  uint16 v.toUInt16

/-- A 32-bit signed integer. -/
def int32 (v : Int32) : Bytes :=
  uint32 v.toUInt32

/-- A 64-bit signed integer. -/
def int64 (v : Int64) : Bytes :=
  uint64 v.toUInt64

/-- The greatest integer with a compressed form. -/
def maxCompressed : Nat := 0x1FFFFFFF

/-- An integer in one, two or four bytes, highest first, with the number of bytes in the leading
bits. -/
def compressed (n : Nat) : Except Fault Bytes :=
  if n < 0x80 then .ok [UInt8.ofNat n]
  else if n < 0x4000 then .ok [UInt8.ofNat (0x80 + n / 256), UInt8.ofNat (n % 256)]
  else if n ≤ maxCompressed then .ok (littleEndian 4 (0xC0000000 + n)).reverse
  else .error (.malformed (.compressedTooLarge n))

/-- The number of elements of a list, in compressed form. -/
def count (n : Nat) : Except Fault Bytes :=
  if n < UInt32.size then compressed n else .error (.malformed (.lengthTooLarge n))

/-- An integer in groups of seven bits, lowest first, each but the last with its high bit set. -/
def sevenBit (n : Nat) : Bytes :=
  if n < 0x80 then [UInt8.ofNat n] else UInt8.ofNat (0x80 + n % 128) :: sevenBit (n / 128)
termination_by n

/-- A string: its size in groups of seven bits, and its UTF-8 bytes. -/
def string (s : String) : Except Fault Bytes :=
  let bytes := Text.utf8 s
  if bytes.length < UInt32.size then .ok (sevenBit bytes.length ++ bytes)
  else .error (.malformed (.stringTooLong bytes.length))

end Encoding

namespace Bytes

/-- The `length` bytes at an offset. -/
def slice (data : Bytes) (offset length : Nat) : Except Fault Bytes :=
  if offset + length ≤ data.length then .ok ((data.drop offset).take length)
  else .error .outOfBounds

/-- The data with the bytes at an offset replaced. -/
def overwrite (data : Bytes) (offset : Nat) (bytes : Bytes) : Except Fault Bytes :=
  if offset + bytes.length ≤ data.length then
    .ok (data.take offset ++ bytes ++ data.drop (offset + bytes.length))
  else .error .outOfBounds

end Bytes

/-- The contents of a file that holds anything at all. -/
structure FileData where
  bytes : Bytes
  nonempty : bytes ≠ []

/-- Contents as such; an empty file is refused. -/
def FileData.ofBytes : Bytes → Except Fault FileData
  | [] => .error .empty
  | b :: bytes => .ok ⟨b :: bytes, by simp⟩

end HookWeave

import HookWeave.Bytes.Cursor

/-!
# Parsing by index

A parser holds data and the index of its next byte. Indices and lengths are machine words; a length
may be any word at all, so an end is only computed where the sum is a word again. Where data are
accessed out of range, the read has gone astray: that is an outcome apart from the faults it
reports. The numbers are put together from bytes with masks and shifts.
-/

namespace HookWeave

/-- Why a read gives no value. -/
inductive Halt where
  /-- The read refuses what it finds. -/
  | fault (cause : Fault)
  /-- The data were accessed out of range. -/
  | astray
  deriving DecidableEq, Repr

/-- Data and the index of the next byte. Data lie in memory, so a word counts them. -/
structure Parser where
  data : Bytes
  addressable : data.length < UInt64.size
  position : UInt64
  deriving Repr

/-- A step of a parser: it moves the position and gives a value, or halts. -/
abbrev Parsing := EStateM Halt Parser

/-- The sum of two words, if it is a word. -/
def checkedAdd? (a b : UInt64) : Option UInt64 :=
  if a.toNat + b.toNat < UInt64.size then some (a + b) else none

namespace Parser

/-- The parser in front of the first byte. -/
def new (data : Bytes) (addressable : data.length < UInt64.size) : Parser :=
  ⟨data, addressable, 0⟩

/-- The length of the data. -/
def size (p : Parser) : UInt64 :=
  UInt64.ofNat p.data.length

/-- How many bytes are left; none past the end. -/
def remaining (p : Parser) : UInt64 :=
  if p.position ≤ p.size then p.size - p.position else 0

/-- Some bytes are left. -/
def hasMore (p : Parser) : Bool :=
  p.position < p.size

/-- The index `length` bytes on, which must be a word and not lie past the end. -/
def endAfter (p : Parser) (length : UInt64) : Except Fault UInt64 :=
  match checkedAdd? p.position length with
  | none => .error .outOfBounds
  | some stop => if p.size < stop then .error .outOfBounds else .ok stop

end Parser

/-- The types of fixed size. Floating-point numbers stand for their bits. -/
inductive Scalar where
  | uint8 | int8 | uint16 | int16 | uint32 | int32 | uint64 | int64 | float32 | float64
  deriving DecidableEq, Repr

namespace Scalar

/-- The number of bytes of a value. -/
def width : Scalar → UInt64
  | .uint8 | .int8 => 1
  | .uint16 | .int16 => 2
  | .uint32 | .int32 | .float32 => 4
  | .uint64 | .int64 | .float64 => 8

/-- The value of which the bits are given. -/
def ofBits : Scalar → Nat → Int
  | .int8, bits => (Int8.ofNat bits).toInt
  | .int16, bits => (Int16.ofNat bits).toInt
  | .int32, bits => (Int32.ofNat bits).toInt
  | .int64, bits => (Int64.ofNat bits).toInt
  | _, bits => bits

end Scalar

namespace Parsing

/-- Halts with a fault. -/
def refuse {α : Type} (cause : Fault) : Parsing α :=
  throw (.fault cause)

/-- Halts with a malformation. -/
def malformed {α : Type} (cause : Malformation) : Parsing α :=
  refuse (.malformed cause)

/-- The index of the next byte. -/
def position : Parsing UInt64 := do
  return (← get).position

/-- Moves to an index. -/
def seek (position : UInt64) : Parsing Unit :=
  modify fun p => { p with position }

/-- The byte at an index, which has to be one of the data. -/
def byteAt (index : UInt64) : Parsing UInt8 := do
  match (← get).data[index.toNat]? with
  | some b => return b
  | none => throw .astray

/-- The bytes from one index up to another, which have to be in order and within the data. -/
def slice (first stop : UInt64) : Parsing Bytes := do
  let p ← get
  if first ≤ stop ∧ stop ≤ p.size then
    return (p.data.drop first.toNat).take (stop.toNat - first.toNat)
  else
    throw .astray

/-- The index `length` bytes on. -/
def endAfter (length : UInt64) : Parsing UInt64 := do
  match (← get).endAfter length with
  | .ok stop => return stop
  | .error cause => refuse cause

/-- The next `length` bytes, and the index behind them. -/
def ahead (length : UInt64) : Parsing (Bytes × UInt64) := do
  let stop ← endAfter length
  let bytes ← slice (← position) stop
  return (bytes, stop)

/-- A run of bytes. -/
def take (length : UInt64) : Parsing Bytes := do
  let (bytes, stop) ← ahead length
  seek stop
  return bytes

/-- The bits of a value of a fixed width, lowest byte first. The bytes that are there must fill
the width. -/
def unsigned (width : UInt64) : Parsing Nat := do
  let (bytes, stop) ← ahead width
  if bytes.length = width.toNat then
    seek stop
    return ofLittleEndian bytes
  else
    refuse .outOfBounds

/-- A value of a type of fixed size. -/
def scalar (type : Scalar) : Parsing Int :=
  type.ofBits <$> unsigned type.width

/-- A byte. -/
def uint8 : Parsing UInt8 :=
  UInt8.ofNat <$> unsigned 1

/-- A compressed integer: one, two or four bytes, highest first, whose leading bits say how many. -/
def compressed : Parsing UInt32 := do
  let lead ← uint8
  if lead &&& 0x80 = 0 then
    return lead.toUInt32
  else if lead &&& 0xC0 = 0x80 then
    let low ← uint8
    return (lead.toUInt32 &&& 0x3F) <<< 8 ||| low.toUInt32
  else if lead &&& 0xE0 = 0xC0 then
    let high ← uint8
    let middle ← uint8
    let low ← uint8
    return (lead.toUInt32 &&& 0x1F) <<< 24 ||| high.toUInt32 <<< 16 ||| middle.toUInt32 <<< 8
      ||| low.toUInt32
  else
    malformed (.compressedLead lead)

/-- A compressed integer that counts elements of a byte or more, of which there cannot be more
than bytes are left. -/
def count : Parsing UInt64 := do
  let n := (← compressed).toUInt64
  let p ← get
  if p.remaining < n then
    malformed (.countExceedsData n.toNat p.position.toNat p.remaining.toNat)
  else
    return n

/-- A row of a table: counted from 1, with 0 for none. The result counts from 0. -/
def row : Parsing (Option UInt64) := do
  let row := (← compressed).toUInt64
  return if 1 ≤ row then some (row - 1) else none

/-- The next byte, taken by its index. -/
def next : Parsing UInt8 := do
  let p ← get
  if p.size ≤ p.position then
    refuse .outOfBounds
  else
    let b ← byteAt p.position
    seek (p.position + 1)
    return b

/-- The groups of seven bits that are left, from the bit `shift` on, below which `value` has all
the bits there are. -/
def groups (value : UInt32) (shift : Nat) : Parsing UInt32 := do
  let b ← next
  let value := value ||| (b &&& 0x7F).toUInt32 <<< UInt32.ofNat shift
  if b &&& 0x80 = 0 then
    return value
  else if 32 ≤ shift + 7 then
    malformed (.sevenBitOverflow (shift + 7))
  else
    groups value (shift + 7)
termination_by 32 - shift

/-- A 32-bit integer in groups of seven bits, lowest first, each but the last with its high bit
set. Bits beyond the word are dropped. -/
def sevenBit : Parsing UInt32 :=
  groups 0 0

/-- A string: its size in groups of seven bits, and its UTF-8 bytes. -/
def string : Parsing String := do
  let size := (← sevenBit).toUInt64
  let start ← position
  let bytes ← take size
  match Text.ofUtf8 bytes with
  | .ok s => return s
  | .error cause => malformed (.notUtf8 start.toNat (start + size).toNat cause)

end Parsing

namespace Parser

/-- The reads of a parser. -/
inductive Call where
  | scalar (type : Scalar)
  | compressed
  | count
  | row
  | sevenBit
  | string
  | bytes (length : UInt64)
  deriving DecidableEq, Repr

/-- What a read gives. -/
inductive Item where
  | value (v : Int)
  | word (v : UInt32)
  | count (n : UInt64)
  | row (index : Option UInt64)
  | text (s : String)
  | bytes (bytes : Bytes)
  deriving DecidableEq, Repr

/-- Makes a read. -/
def Call.read : Call → Parsing Item
  | .scalar type => .value <$> Parsing.scalar type
  | .compressed => .word <$> Parsing.compressed
  | .count => .count <$> Parsing.count
  | .row => .row <$> Parsing.row
  | .sevenBit => .word <$> Parsing.sevenBit
  | .string => .text <$> Parsing.string
  | .bytes length => .bytes <$> Parsing.take length

end Parser

end HookWeave

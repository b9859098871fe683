import HookWeave.Fault

/-!
# Reading bytes

A cursor over bytes, and the reads that move it. A read that fails leaves the cursor where it
stopped: fixed-size values and runs of bytes are taken whole or not at all, while the encodings of
several steps keep the bytes of the steps that went well.
-/

namespace HookWeave

/-- Raw data. -/
abbrev Bytes := List UInt8

/-- A position in data: how many bytes lie before it, and the bytes from it on. -/
structure Cursor where
  pos : Nat
  rest : Bytes
  deriving DecidableEq, Repr

namespace Cursor

/-- The position before the first byte. -/
def start (data : Bytes) : Cursor := ⟨0, data⟩

/-- How many bytes are left. -/
def remaining (c : Cursor) : Nat :=
  c.rest.length

/-- The length of the whole data. -/
def size (c : Cursor) : Nat :=
  c.pos + c.rest.length

/-- Some bytes are left. -/
def hasMore (c : Cursor) : Bool :=
  !c.rest.isEmpty

/-- The position `length` bytes on, which must not lie past the end. -/
def endAfter (c : Cursor) (length : Nat) : Except Fault Nat :=
  if c.pos + length ≤ c.size then .ok (c.pos + length) else .error .outOfBounds

end Cursor

/-- A read: it moves the cursor and gives a value or a fault. -/
abbrev Reader := EStateM Fault Cursor

/-- The first `n` bytes and the others, if there are `n`. -/
def splitExact? : Nat → Bytes → Option (Bytes × Bytes)
  | 0, bytes => some ([], bytes)
  | _ + 1, [] => none
  | n + 1, b :: bytes => (splitExact? n bytes).map fun (front, back) => (b :: front, back)

/-- The number whose bytes, lowest first, are given. -/
def ofLittleEndian : Bytes → Nat
  | [] => 0
  | b :: bytes => b.toNat + 256 * ofLittleEndian bytes

namespace Reader

/-- The value that a read finds at the start of the data. -/
def value {α : Type} (r : Reader α) (data : Bytes) : Except Fault α :=
  match r.run (.start data) with
  | .ok a _ => .ok a
  | .error e _ => .error e

/-- Fails with a malformation. -/
def malformed {α : Type} (cause : Malformation) : Reader α :=
  throw (.malformed cause)

/-- The position. -/
def position : Reader Nat := do
  return (← get).pos

/-- A run of bytes. -/
def take (length : Nat) : Reader Bytes := fun c =>
  match splitExact? length c.rest with
  | some (front, back) => .ok front ⟨c.pos + length, back⟩
  | none => .error .outOfBounds c

/-- A byte. -/
def uint8 : Reader UInt8 := fun c =>
  match c.rest with
  | [] => .error .outOfBounds c
  | b :: rest => .ok b ⟨c.pos + 1, rest⟩

/-- An unsigned integer of `width` bytes, lowest first. -/
def unsigned (width : Nat) : Reader Nat :=
  ofLittleEndian <$> take width

/-- A 16-bit unsigned integer. -/
def uint16 : Reader UInt16 :=
  UInt16.ofNat <$> unsigned 2

/-- A 32-bit unsigned integer. -/
def uint32 : Reader UInt32 :=
  UInt32.ofNat <$> unsigned 4

/-- A 64-bit unsigned integer. -/
def uint64 : Reader UInt64 :=
  UInt64.ofNat <$> unsigned 8

/-- An 8-bit signed integer. -/
def int8 : Reader Int8 :=
  UInt8.toInt8 <$> uint8

/-- A 16-bit signed integer. -/
def int16 : Reader Int16 :=
  UInt16.toInt16 <$> uint16

/-- A 32-bit signed integer. -/
def int32 : Reader Int32 :=
  UInt32.toInt32 <$> uint32

/-- A 64-bit signed integer. -/
def int64 : Reader Int64 :=
  UInt64.toInt64 <$> uint64

/-- A compressed integer: one, two or four bytes, highest first, whose leading bits say how many. -/
def compressed : Reader Nat := do
  let lead := (← uint8).toNat
  if lead < 0x80 then
    return lead
  else if lead < 0xC0 then
    let low := (← uint8).toNat
    return lead % 64 * 256 + low
  else if lead < 0xE0 then
    let high := (← uint8).toNat
    let middle := (← uint8).toNat
    let low := (← uint8).toNat
    return ((lead % 32 * 256 + high) * 256 + middle) * 256 + low
  else
    malformed (.compressedLead (UInt8.ofNat lead))

/-- A compressed integer that counts elements of a byte or more, of which there cannot be more
than bytes are left. -/
def count : Reader Nat := do
  let n ← compressed
  let c ← get
  if c.remaining < n then
    malformed (.countExceedsData n c.pos c.remaining)
  else
    return n

/-- A row of a table: counted from 1, with 0 for none. The result counts from 0. -/
def row : Reader (Option Nat) := do
  match ← compressed with
  | 0 => return none
  | n + 1 => return some n

/-- Groups of seven bits, lowest first, each but the last with its high bit set; at most `left`
more of them after `done`. -/
def groups : (left done : Nat) → Reader Nat
  | 0, done => malformed (.sevenBitOverflow (7 * done))
  | left + 1, done => do
    let b := (← uint8).toNat
    if b < 0x80 then
      return b
    else
      let high ← groups left (done + 1)
      return b % 128 + 128 * high

/-- A 32-bit integer in groups of seven bits, of which there are at most five. Bits of the fifth
group beyond the word are dropped. -/
def sevenBit : Reader Nat :=
  (· % UInt32.size) <$> groups 5 0

/-- A string: its size in groups of seven bits, and its UTF-8 bytes. -/
def string : Reader String := do
  let size ← sevenBit
  let start ← position
  let bytes ← take size
  match Text.ofUtf8 bytes with
  | .ok s => return s
  | .error cause => malformed (.notUtf8 start (start + size) cause)

/-- The results of `n` reads one after another. -/
def times {α : Type} (r : Reader α) : Nat → Reader (List α)
  | 0 => return []
  | n + 1 => do
    let a ← r
    let as ← times r n
    return a :: as

end Reader

end HookWeave

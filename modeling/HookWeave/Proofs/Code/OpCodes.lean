import HookWeave.Code.Decoded
import HookWeave.Proofs.Bytes.Reads

/-!
# The instruction table read backwards

The bytes of an opcode read as that opcode (`reads_readOpCode`): the two tables of opcodes by byte
hold every opcode at its own byte, and no opcode of one byte has the byte that announces the others.
The opcodes with a long form are the short branches (`isShortBranch_iff`), and the long form of a branch is
not short and needs no form of its own (`longForm?_longForm?`).
-/

namespace HookWeave
namespace OpCode

variable {op long : OpCode}

/-- Every opcode is in the list of all. -/
lemma mem_all (op : OpCode) : op ∈ all := by
  cases op <;> decide

/-- The table of opcodes by byte holds what a search finds. -/
lemma getElem?_byByte (extended : Bool) (b : UInt8) :
    (byByte extended)[b.toNat]?.join
      = all.find? fun op => op.info.extended == extended && op.info.byte.toNat == b.toNat := by
  rw [byByte, Array.getElem?_ofFn, dif_pos b.toNat_lt]
  rfl

/-- A search for the byte of an opcode finds the opcode. -/
lemma find?_byte (op : OpCode) :
    (all.find? fun other => other.info.extended == op.info.extended
      && other.info.byte.toNat == op.info.byte.toNat) = some op := by
  have searched : ∀ op ∈ all, (all.find? fun other => other.info.extended == op.info.extended
      && other.info.byte.toNat == op.info.byte.toNat) = some op := by
    decide +kernel
  exact searched op (mem_all op)

/-- An opcode of one byte is found by it. -/
lemma ofByte?_byte (h : op.info.extended = false) : ofByte? op.info.byte = some op := by
  rw [ofByte?, singleTable, getElem?_byByte, ← h, find?_byte]

/-- An opcode behind the escape byte is found by its byte. -/
lemma ofExtendedByte?_byte (h : op.info.extended = true) :
    ofExtendedByte? op.info.byte = some op := by
  rw [ofExtendedByte?, extendedTable, getElem?_byByte, ← h, find?_byte]

/-- No opcode looks like the escape byte. -/
lemma byte_ne_escape (op : OpCode) : op.info.byte ≠ escapeByte := by
  cases op <;> decide

/-- The bytes of an opcode are as many as its size says. -/
lemma length_bytes (op : OpCode) : op.bytes.length = op.size := by
  unfold bytes size
  split <;> rfl

/-- An opcode has a byte at least. -/
lemma size_pos (op : OpCode) : 0 < op.size := by
  unfold size
  split <;> decide

/-- An opcode is some bytes. -/
lemma bytes_ne_nil (op : OpCode) : op.bytes ≠ [] :=
  List.ne_nil_of_length_pos (op.length_bytes ▸ op.size_pos)

/-- The bytes of an opcode read as that opcode. -/
lemma reads_readOpCode (op : OpCode) : RawInstruction.readOpCode.Reads op.bytes op := by
  unfold RawInstruction.readOpCode bytes
  by_cases extended : op.info.extended = true
  · rw [if_pos extended]
    refine (Reader.reads_uint8 escapeByte).bind (t := [op.info.byte]) ?_
    rw [if_pos (rfl : escapeByte = escapeByte)]
    refine (Reader.reads_uint8 op.info.byte).bind_nil ?_
    rw [ofExtendedByte?_byte extended]
    exact Reader.Reads.pure
  · rw [if_neg extended]
    have single : op.info.extended = false := Bool.eq_false_iff.2 extended
    refine (Reader.reads_uint8 op.info.byte).bind_nil ?_
    rw [if_neg (byte_ne_escape op), ofByte?_byte single]
    exact Reader.Reads.pure

/-- A long form has no long form. -/
lemma longForm?_longForm? (h : op.longForm? = some long) : long.longForm? = none := by
  cases op <;> cases h <;> rfl

/-- A long form takes as many bytes as the short form, and its displacement four in place of one. -/
lemma kind_of_longForm? (h : op.longForm? = some long) :
    op.info.kind = .branch8 ∧ long.info.kind = .branch32 ∧ long.size = op.size := by
  cases op <;> cases h <;> exact ⟨rfl, rfl, rfl⟩

/-- Short branches are the opcodes that have a long form. -/
lemma isShortBranch_iff : op.isShortBranch = true ↔ ∃ long, op.longForm? = some long := by
  constructor
  · intro short
    cases op
    all_goals first
      | exact ⟨_, rfl⟩
      | exact absurd short (by decide)
  · rintro ⟨long, h⟩
    exact decide_eq_true (kind_of_longForm? h).1

end OpCode
end HookWeave

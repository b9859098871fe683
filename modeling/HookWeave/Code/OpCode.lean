/-!
# Opcodes

The instructions of the stack machine. `OpCode.info` is the instruction table: how an opcode is
spelled and encoded, what operand follows it, where control goes after it and what it does to the
height of the evaluation stack. Opcodes are looked up by byte (`ofByte?`, `ofExtendedByte?`) and by
spelling (`ofMnemonic?`).
-/

namespace HookWeave

/-- The encoded form of an operand. -/
inductive OperandKind where
  | none
  | int8 | int32 | int64
  | float32 | float64
  /-- Slots of arguments and locals, in one or two bytes. -/
  | arg8 | arg16 | loc8 | loc16
  /-- Displacements, in one or four bytes. -/
  | branch8 | branch32
  /-- A table of displacements. -/
  | switch
  /-- Tokens. -/
  | method | field | type | string
  deriving DecidableEq, Repr

/-- The size of an encoded operand, unless it depends on the operand itself. -/
def OperandKind.size? : OperandKind → Option Nat
  | .none => some 0
  | .int8 | .arg8 | .loc8 | .branch8 => some 1
  | .arg16 | .loc16 => some 2
  | .int32 | .float32 | .branch32 | .method | .field | .type | .string => some 4
  | .int64 | .float64 => some 8
  | .switch => Option.none

/-- Where control goes after an instruction. -/
inductive Flow where
  /-- To the next instruction. -/
  | next
  /-- To the target or to the next instruction. -/
  | conditional
  /-- To the target. -/
  | jump
  /-- Into a method and back to the next instruction. -/
  | call
  /-- Out of the method. -/
  | ret
  /-- To one of the targets or to the next instruction. -/
  | switch
  /-- To a handler. -/
  | throw
  /-- Out of a finally or fault handler. -/
  | endFinally
  /-- To the target, with an empty evaluation stack. -/
  | leave
  deriving DecidableEq, Repr

/-- Control never goes on to the next instruction. -/
def Flow.isTerminal : Flow → Bool
  | .jump | .ret | .throw | .endFinally | .leave => true
  | .next | .conditional | .call | .switch => false

/-- The instructions. -/
inductive OpCode where
  | nop | ldarg0 | ldarg1 | ldarg2 | ldarg3 | ldloc0 | ldloc1 | ldloc2 | ldloc3 | stloc0 | stloc1
  | stloc2 | stloc3 | ldargShort | ldargaShort | stargShort | ldlocShort | ldlocaShort
  | stlocShort | ldnull | ldcI4M1 | ldcI4_0 | ldcI4_1 | ldcI4_2 | ldcI4_3 | ldcI4_4 | ldcI4_5
  | ldcI4_6 | ldcI4_7 | ldcI4_8 | ldcI4Short | ldcI4 | ldcI8 | ldcR4 | ldcR8 | dup | pop | call
  | ret | brShort | brfalseShort | brtrueShort | beqShort | bgeShort | bgtShort | bleShort
  | bltShort | bneUnShort | br | brfalse | brtrue | beq | bge | bgt | ble | blt | bneUn | switch
  | ldindU1 | ldindI4 | ldindI8 | ldindR4 | ldindR8 | ldindRef | stindRef | stindI1 | stindI4
  | stindI8 | stindR4 | stindR8 | add | sub | mul | div | rem | and | or | xor | shl | shr | neg
  | not | convI4 | convI8 | convR4 | convR8 | callvirt | ldstr | newobj | castclass | isinst
  | throw | ldfld | ldflda | stfld | ldsfld | stsfld | box | newarr | ldlen | ldelema | ldelemI4
  | ldelemRef | stelemI4 | stelemRef | ldelem | stelem | unboxAny | endfinally | leave
  | leaveShort | ceq | cgt | clt | ldarg | ldarga | starg | ldloc | ldloca | stloc | initobj
  | rethrow
  deriving DecidableEq, Repr

/-- A row of the instruction table. Calls and returns have no fixed stack behaviour; theirs is
that of the method. -/
structure OpInfo where
  mnemonic : String
  /-- The opcode is the byte after the escape byte. -/
  extended : Bool
  byte : UInt8
  kind : OperandKind
  flow : Flow
  pops : Nat
  pushes : Nat

/-- The byte that announces an extended opcode. -/
def escapeByte : UInt8 := 0xFE

namespace OpCode

/-- The instruction table. -/
def info : OpCode → OpInfo
  | .nop => ⟨"nop", false, 0x00, .none, .next, 0, 0⟩
  | .ldarg0 => ⟨"ldarg.0", false, 0x02, .none, .next, 0, 1⟩
  | .ldarg1 => ⟨"ldarg.1", false, 0x03, .none, .next, 0, 1⟩
  | .ldarg2 => ⟨"ldarg.2", false, 0x04, .none, .next, 0, 1⟩
  | .ldarg3 => ⟨"ldarg.3", false, 0x05, .none, .next, 0, 1⟩
  | .ldloc0 => ⟨"ldloc.0", false, 0x06, .none, .next, 0, 1⟩
  | .ldloc1 => ⟨"ldloc.1", false, 0x07, .none, .next, 0, 1⟩
  | .ldloc2 => ⟨"ldloc.2", false, 0x08, .none, .next, 0, 1⟩
  | .ldloc3 => ⟨"ldloc.3", false, 0x09, .none, .next, 0, 1⟩
  | .stloc0 => ⟨"stloc.0", false, 0x0A, .none, .next, 1, 0⟩
  | .stloc1 => ⟨"stloc.1", false, 0x0B, .none, .next, 1, 0⟩
  | .stloc2 => ⟨"stloc.2", false, 0x0C, .none, .next, 1, 0⟩
  | .stloc3 => ⟨"stloc.3", false, 0x0D, .none, .next, 1, 0⟩
  | .ldargShort => ⟨"ldarg.s", false, 0x0E, .arg8, .next, 0, 1⟩
  | .ldargaShort => ⟨"ldarga.s", false, 0x0F, .arg8, .next, 0, 1⟩
  | .stargShort => ⟨"starg.s", false, 0x10, .arg8, .next, 1, 0⟩
  | .ldlocShort => ⟨"ldloc.s", false, 0x11, .loc8, .next, 0, 1⟩
  | .ldlocaShort => ⟨"ldloca.s", false, 0x12, .loc8, .next, 0, 1⟩
  | .stlocShort => ⟨"stloc.s", false, 0x13, .loc8, .next, 1, 0⟩
  | .ldnull => ⟨"ldnull", false, 0x14, .none, .next, 0, 1⟩
  | .ldcI4M1 => ⟨"ldc.i4.m1", false, 0x15, .none, .next, 0, 1⟩
  | .ldcI4_0 => ⟨"ldc.i4.0", false, 0x16, .none, .next, 0, 1⟩
  | .ldcI4_1 => ⟨"ldc.i4.1", false, 0x17, .none, .next, 0, 1⟩
  | .ldcI4_2 => ⟨"ldc.i4.2", false, 0x18, .none, .next, 0, 1⟩
  | .ldcI4_3 => ⟨"ldc.i4.3", false, 0x19, .none, .next, 0, 1⟩
  | .ldcI4_4 => ⟨"ldc.i4.4", false, 0x1A, .none, .next, 0, 1⟩
  | .ldcI4_5 => ⟨"ldc.i4.5", false, 0x1B, .none, .next, 0, 1⟩
  | .ldcI4_6 => ⟨"ldc.i4.6", false, 0x1C, .none, .next, 0, 1⟩
  | .ldcI4_7 => ⟨"ldc.i4.7", false, 0x1D, .none, .next, 0, 1⟩
  | .ldcI4_8 => ⟨"ldc.i4.8", false, 0x1E, .none, .next, 0, 1⟩
  | .ldcI4Short => ⟨"ldc.i4.s", false, 0x1F, .int8, .next, 0, 1⟩
  | .ldcI4 => ⟨"ldc.i4", false, 0x20, .int32, .next, 0, 1⟩
  | .ldcI8 => ⟨"ldc.i8", false, 0x21, .int64, .next, 0, 1⟩
  | .ldcR4 => ⟨"ldc.r4", false, 0x22, .float32, .next, 0, 1⟩
  | .ldcR8 => ⟨"ldc.r8", false, 0x23, .float64, .next, 0, 1⟩
  | .dup => ⟨"dup", false, 0x25, .none, .next, 1, 2⟩
  | .pop => ⟨"pop", false, 0x26, .none, .next, 1, 0⟩
  | .call => ⟨"call", false, 0x28, .method, .call, 0, 0⟩
  | .ret => ⟨"ret", false, 0x2A, .none, .ret, 0, 0⟩
  | .brShort => ⟨"br.s", false, 0x2B, .branch8, .jump, 0, 0⟩
  | .brfalseShort => ⟨"brfalse.s", false, 0x2C, .branch8, .conditional, 1, 0⟩
  | .brtrueShort => ⟨"brtrue.s", false, 0x2D, .branch8, .conditional, 1, 0⟩
  | .beqShort => ⟨"beq.s", false, 0x2E, .branch8, .conditional, 2, 0⟩
  | .bgeShort => ⟨"bge.s", false, 0x2F, .branch8, .conditional, 2, 0⟩
  | .bgtShort => ⟨"bgt.s", false, 0x30, .branch8, .conditional, 2, 0⟩
  | .bleShort => ⟨"ble.s", false, 0x31, .branch8, .conditional, 2, 0⟩
  | .bltShort => ⟨"blt.s", false, 0x32, .branch8, .conditional, 2, 0⟩
  | .bneUnShort => ⟨"bne.un.s", false, 0x33, .branch8, .conditional, 2, 0⟩
  | .br => ⟨"br", false, 0x38, .branch32, .jump, 0, 0⟩
  | .brfalse => ⟨"brfalse", false, 0x39, .branch32, .conditional, 1, 0⟩
  | .brtrue => ⟨"brtrue", false, 0x3A, .branch32, .conditional, 1, 0⟩
  | .beq => ⟨"beq", false, 0x3B, .branch32, .conditional, 2, 0⟩
  | .bge => ⟨"bge", false, 0x3C, .branch32, .conditional, 2, 0⟩
  | .bgt => ⟨"bgt", false, 0x3D, .branch32, .conditional, 2, 0⟩
  | .ble => ⟨"ble", false, 0x3E, .branch32, .conditional, 2, 0⟩
  | .blt => ⟨"blt", false, 0x3F, .branch32, .conditional, 2, 0⟩
  | .bneUn => ⟨"bne.un", false, 0x40, .branch32, .conditional, 2, 0⟩
  | .switch => ⟨"switch", false, 0x45, .switch, .switch, 1, 0⟩
  | .ldindU1 => ⟨"ldind.u1", false, 0x47, .none, .next, 1, 1⟩
  | .ldindI4 => ⟨"ldind.i4", false, 0x4A, .none, .next, 1, 1⟩
  | .ldindI8 => ⟨"ldind.i8", false, 0x4C, .none, .next, 1, 1⟩
  | .ldindR4 => ⟨"ldind.r4", false, 0x4E, .none, .next, 1, 1⟩
  | .ldindR8 => ⟨"ldind.r8", false, 0x4F, .none, .next, 1, 1⟩
  | .ldindRef => ⟨"ldind.ref", false, 0x50, .none, .next, 1, 1⟩
  | .stindRef => ⟨"stind.ref", false, 0x51, .none, .next, 2, 0⟩
  | .stindI1 => ⟨"stind.i1", false, 0x52, .none, .next, 2, 0⟩
  | .stindI4 => ⟨"stind.i4", false, 0x54, .none, .next, 2, 0⟩
  | .stindI8 => ⟨"stind.i8", false, 0x55, .none, .next, 2, 0⟩
  | .stindR4 => ⟨"stind.r4", false, 0x56, .none, .next, 2, 0⟩
  | .stindR8 => ⟨"stind.r8", false, 0x57, .none, .next, 2, 0⟩
  | .add => ⟨"add", false, 0x58, .none, .next, 2, 1⟩
  | .sub => ⟨"sub", false, 0x59, .none, .next, 2, 1⟩
  | .mul => ⟨"mul", false, 0x5A, .none, .next, 2, 1⟩
  | .div => ⟨"div", false, 0x5B, .none, .next, 2, 1⟩
  | .rem => ⟨"rem", false, 0x5D, .none, .next, 2, 1⟩
  | .and => ⟨"and", false, 0x5F, .none, .next, 2, 1⟩
  | .or => ⟨"or", false, 0x60, .none, .next, 2, 1⟩
  | .xor => ⟨"xor", false, 0x61, .none, .next, 2, 1⟩
  | .shl => ⟨"shl", false, 0x62, .none, .next, 2, 1⟩
  | .shr => ⟨"shr", false, 0x63, .none, .next, 2, 1⟩
  | .neg => ⟨"neg", false, 0x65, .none, .next, 1, 1⟩
  | .not => ⟨"not", false, 0x66, .none, .next, 1, 1⟩
  | .convI4 => ⟨"conv.i4", false, 0x69, .none, .next, 1, 1⟩
  | .convI8 => ⟨"conv.i8", false, 0x6A, .none, .next, 1, 1⟩
  | .convR4 => ⟨"conv.r4", false, 0x6B, .none, .next, 1, 1⟩
  | .convR8 => ⟨"conv.r8", false, 0x6C, .none, .next, 1, 1⟩
  | .callvirt => ⟨"callvirt", false, 0x6F, .method, .call, 0, 0⟩
  | .ldstr => ⟨"ldstr", false, 0x72, .string, .next, 0, 1⟩
  | .newobj => ⟨"newobj", false, 0x73, .method, .call, 0, 0⟩
  | .castclass => ⟨"castclass", false, 0x74, .type, .next, 1, 1⟩
  | .isinst => ⟨"isinst", false, 0x75, .type, .next, 1, 1⟩
  | .throw => ⟨"throw", false, 0x7A, .none, .throw, 1, 0⟩
  | .ldfld => ⟨"ldfld", false, 0x7B, .field, .next, 1, 1⟩
  | .ldflda => ⟨"ldflda", false, 0x7C, .field, .next, 1, 1⟩
  | .stfld => ⟨"stfld", false, 0x7D, .field, .next, 2, 0⟩
  | .ldsfld => ⟨"ldsfld", false, 0x7E, .field, .next, 0, 1⟩
  | .stsfld => ⟨"stsfld", false, 0x80, .field, .next, 1, 0⟩
  | .box => ⟨"box", false, 0x8C, .type, .next, 1, 1⟩
  | .newarr => ⟨"newarr", false, 0x8D, .type, .next, 1, 1⟩
  | .ldlen => ⟨"ldlen", false, 0x8E, .none, .next, 1, 1⟩
  | .ldelema => ⟨"ldelema", false, 0x8F, .type, .next, 2, 1⟩
  | .ldelemI4 => ⟨"ldelem.i4", false, 0x94, .none, .next, 2, 1⟩
  | .ldelemRef => ⟨"ldelem.ref", false, 0x9A, .none, .next, 2, 1⟩
  | .stelemI4 => ⟨"stelem.i4", false, 0x9E, .none, .next, 3, 0⟩
  | .stelemRef => ⟨"stelem.ref", false, 0xA2, .none, .next, 3, 0⟩
  | .ldelem => ⟨"ldelem", false, 0xA3, .type, .next, 2, 1⟩
  | .stelem => ⟨"stelem", false, 0xA4, .type, .next, 3, 0⟩
  | .unboxAny => ⟨"unbox.any", false, 0xA5, .type, .next, 1, 1⟩
  | .endfinally => ⟨"endfinally", false, 0xDC, .none, .endFinally, 0, 0⟩
  | .leave => ⟨"leave", false, 0xDD, .branch32, .leave, 0, 0⟩
  | .leaveShort => ⟨"leave.s", false, 0xDE, .branch8, .leave, 0, 0⟩
  | .ceq => ⟨"ceq", true, 0x01, .none, .next, 2, 1⟩
  | .cgt => ⟨"cgt", true, 0x02, .none, .next, 2, 1⟩
  | .clt => ⟨"clt", true, 0x04, .none, .next, 2, 1⟩
  | .ldarg => ⟨"ldarg", true, 0x09, .arg16, .next, 0, 1⟩
  | .ldarga => ⟨"ldarga", true, 0x0A, .arg16, .next, 0, 1⟩
  | .starg => ⟨"starg", true, 0x0B, .arg16, .next, 1, 0⟩
  | .ldloc => ⟨"ldloc", true, 0x0C, .loc16, .next, 0, 1⟩
  | .ldloca => ⟨"ldloca", true, 0x0D, .loc16, .next, 0, 1⟩
  | .stloc => ⟨"stloc", true, 0x0E, .loc16, .next, 1, 0⟩
  | .initobj => ⟨"initobj", true, 0x15, .type, .next, 1, 0⟩
  | .rethrow => ⟨"rethrow", true, 0x1A, .none, .throw, 0, 0⟩

/-- Every opcode, in the order of the table. -/
def all : List OpCode := [
    .nop, .ldarg0, .ldarg1, .ldarg2, .ldarg3, .ldloc0, .ldloc1, .ldloc2, .ldloc3, .stloc0,
    .stloc1, .stloc2, .stloc3, .ldargShort, .ldargaShort, .stargShort, .ldlocShort, .ldlocaShort,
    .stlocShort, .ldnull, .ldcI4M1, .ldcI4_0, .ldcI4_1, .ldcI4_2, .ldcI4_3, .ldcI4_4, .ldcI4_5,
    .ldcI4_6, .ldcI4_7, .ldcI4_8, .ldcI4Short, .ldcI4, .ldcI8, .ldcR4, .ldcR8, .dup, .pop, .call,
    .ret, .brShort, .brfalseShort, .brtrueShort, .beqShort, .bgeShort, .bgtShort, .bleShort,
    .bltShort, .bneUnShort, .br, .brfalse, .brtrue, .beq, .bge, .bgt, .ble, .blt, .bneUn,
    .switch, .ldindU1, .ldindI4, .ldindI8, .ldindR4, .ldindR8, .ldindRef, .stindRef, .stindI1,
    .stindI4, .stindI8, .stindR4, .stindR8, .add, .sub, .mul, .div, .rem, .and, .or, .xor, .shl,
    .shr, .neg, .not, .convI4, .convI8, .convR4, .convR8, .callvirt, .ldstr, .newobj, .castclass,
    .isinst, .throw, .ldfld, .ldflda, .stfld, .ldsfld, .stsfld, .box, .newarr, .ldlen, .ldelema,
    .ldelemI4, .ldelemRef, .stelemI4, .stelemRef, .ldelem, .stelem, .unboxAny, .endfinally,
    .leave, .leaveShort, .ceq, .cgt, .clt, .ldarg, .ldarga, .starg, .ldloc, .ldloca, .stloc,
    .initobj, .rethrow]

/-- The spelling. -/
def mnemonic (op : OpCode) : String :=
  op.info.mnemonic

/-- The number of bytes of the opcode itself. -/
def size (op : OpCode) : Nat :=
  if op.info.extended then 2 else 1

/-- The bytes of the opcode itself. -/
def bytes (op : OpCode) : List UInt8 :=
  if op.info.extended then [escapeByte, op.info.byte] else [op.info.byte]

/-- The table of opcodes by byte, for one of the two encodings. -/
def byByte (extended : Bool) : Array (Option OpCode) :=
  Array.ofFn (n := 256) fun b =>
    all.find? fun op => op.info.extended == extended && op.info.byte.toNat == b.val

/-- The opcodes of one byte. -/
def singleTable : Array (Option OpCode) := byByte false

/-- The opcodes after the escape byte. -/
def extendedTable : Array (Option OpCode) := byByte true

/-- The opcode that a single byte stands for. -/
def ofByte? (b : UInt8) : Option OpCode :=
  singleTable[b.toNat]?.join

/-- The opcode that a byte after the escape byte stands for. -/
def ofExtendedByte? (b : UInt8) : Option OpCode :=
  extendedTable[b.toNat]?.join

/-- The opcode with a spelling. -/
def ofMnemonic? (s : String) : Option OpCode :=
  all.find? fun op => op.mnemonic == s

/-- The form of a short branch with a displacement of four bytes. -/
def longForm? : OpCode → Option OpCode
  | brShort => some br
  | brfalseShort => some brfalse
  | brtrueShort => some brtrue
  | beqShort => some beq
  | bgeShort => some bge
  | bgtShort => some bgt
  | bleShort => some ble
  | bltShort => some blt
  | bneUnShort => some bneUn
  | leaveShort => some leave
  | _ => none

/-- The opcode is a branch whose displacement has one byte. -/
def isShortBranch (op : OpCode) : Bool :=
  op.info.kind = .branch8

end OpCode

end HookWeave

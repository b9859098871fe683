import HookWeave.Code.Instruction
import HookWeave.Text.Hex
import HookWeave.Text.Utf8

/-!
# Faults

Everything that can go wrong, by cause, and the one place where each cause gets its wording
(`Fault.message`).
-/

namespace HookWeave

/-- The reason why a file operation failed. -/
inductive IoFault where
  | notFound
  | noSuchDevice
  | notDirectory
  | isDirectory
  | invalidArgument
  | nameTooLong
  | notEmpty
  /-- The path holds a character that ends texts for the operating system. -/
  | nulInPath
  deriving DecidableEq, Repr

/-- The number by which the operating system names the reason, if the operation gets that far. -/
def IoFault.code? : IoFault → Option Nat
  | .notFound => some 2
  | .noSuchDevice => some 19
  | .notDirectory => some 20
  | .isDirectory => some 21
  | .invalidArgument => some 22
  | .nameTooLong => some 36
  | .notEmpty => some 39
  | .nulInPath => none

/-- The reason in messages. -/
def IoFault.message (f : IoFault) : String :=
  match f.code? with
  | some code => "os error " ++ toString code
  | none => "file name contained an unexpected NUL byte"

/-- What a token may stand for. -/
inductive TokenUse where
  | member | method | field | type | string
  deriving DecidableEq, Repr

/-- Data that does not follow the format, or does not fit it. -/
inductive Malformation where
  -- encoded numbers and strings
  | compressedLead (lead : UInt8)
  | compressedTooLarge (value : Nat)
  | lengthTooLarge (length : Nat)
  | stringTooLong (size : Nat)
  | countExceedsData (count offset remaining : Nat)
  | sevenBitOverflow (bits : Nat)
  | notUtf8 (start stop : Nat) (cause : Text.Utf8Fault)
  -- signatures
  | typeRowMissing (row : Nat)
  | typeRefMissing (offset : Nat)
  | elementType (byte : UInt8) (offset : Nat)
  | callingConvention (byte : UInt8)
  | notFieldSignature (byte : UInt8)
  -- tokens
  | rowTooLarge (row : Nat) (table : UInt8)
  | tokenUse (token : UInt32) (expected : TokenUse)
  | tokenRowMissing (token : UInt32)
  | tokenUnknown (token : UInt32) (expected : TokenUse)
  -- code
  | codeTooLarge (size : Nat)
  | opcode (byte : UInt8)
  | extendedOpcode (byte : UInt8)
  | branchOffset (target : Int)
  | branchBoundary (target : Nat)
  | offsetBoundary (offset : Nat)
  | noLongForm (op : OpCode)
  | jumpTableExpected (op : OpCode) (found : Operand)
  | branchTargetExpected (op : OpCode) (found : Operand)
  | operandMismatch (op : OpCode) (found : Operand)
  | exceedsByte (op : OpCode) (value : Int)
  | shortDisplacement (displacement : Int)
  | displacement (displacement : Int)
  | jumpTableDisplacement (displacement : Int)
  | jumpTableTooLarge
  | bodyTooLarge
  | layoutUnstable (passes : Nat)
  -- evaluation stack
  | methodOperandMissing (op : OpCode)
  | pastEnd
  | inconsistentDepth (instruction : Instruction) (known depth : Nat)
  | stackUnderflow (instruction : Instruction) (depth pops : Nat)
  | stackTooDeep (depth : Nat)
  -- declarations
  | tooManyLocals
  | duplicateField (type field : String)
  -- module images
  | magic (found : List UInt8)
  | version (found : Nat)
  | trailingData (offset : Nat)
  | trailingBytes (what : String) (offset : Nat)
  | memberKind (kind : UInt8)
  | conventionContradictsFlags (method : String)
  | parameterCount (method : String) (named declared : Nat)
  | bodyMarker (marker : UInt8) (method : String)
  | initFlag (value : UInt8)
  | clauseFlags (flags : UInt16)
  | clauseCatchType (offset : Nat)
  | clauseStartsAtEnd
  | clauseLength
  | clauseEndsEarly (start : Nat)
  | attributeNotMethod (row : Nat)
  | attributeConstructorMissing
  | argumentTag (tag : UInt8)
  deriving DecidableEq, Repr

/-- The wording of a malformation. -/
def Malformation.message : Malformation → String
  | .compressedLead lead => "Invalid compressed uint - " ++ toString lead.toNat
  | .compressedTooLarge value =>
    "Value " ++ toString value ++ " is too large for a compressed integer"
  | .lengthTooLarge length =>
    "Count " ++ toString length ++ " does not fit a compressed integer"
  | .stringTooLong size => "String of " ++ toString size ++ " bytes is too long"
  | .countExceedsData count offset remaining =>
    "Count " ++ toString count ++ " at offset " ++ toString offset
      ++ " exceeds the remaining " ++ toString remaining ++ " bytes"
  | .sevenBitOverflow bits =>
    "7-bit encoded integer overflow: value exceeds u32 capacity after " ++ toString bits ++ " bits"
  | .notUtf8 start stop cause =>
    "Invalid UTF-8 string at offset " ++ toString start ++ "-" ++ toString stop ++ ": "
      ++ cause.message
  | .typeRowMissing row => "Type reference row " ++ toString row ++ " does not exist"
  | .typeRefMissing offset => "Missing type reference at offset " ++ toString offset
  | .elementType byte offset =>
    "Unsupported element type - 0x" ++ Text.hexPadded 2 byte.toNat ++ " at offset "
      ++ toString offset
  | .callingConvention byte =>
    "Unsupported calling convention - 0x" ++ Text.hexPadded 2 byte.toNat
  | .notFieldSignature byte =>
    "Expected field signature, found 0x" ++ Text.hexPadded 2 byte.toNat
  | .rowTooLarge row table =>
    "Row " ++ toString row ++ " of table 0x" ++ Text.hexPadded 2 table.toNat
      ++ " does not fit a token"
  | .tokenUse token .member => "Token " ++ Text.hexWord token ++ " is not a member reference"
  | .tokenUse token .method => "Token " ++ Text.hexWord token ++ " is not a method"
  | .tokenUse token .field => "Token " ++ Text.hexWord token ++ " is not a field"
  | .tokenUse token .type => "Token " ++ Text.hexWord token ++ " is not a type specification"
  | .tokenUse token .string => "Token " ++ Text.hexWord token ++ " is not a user string"
  | .tokenRowMissing token => "Token " ++ Text.hexWord token ++ " references a missing row"
  | .tokenUnknown token .member => "no member " ++ Text.hexWord token
  | .tokenUnknown token .method => "no method " ++ Text.hexWord token
  | .tokenUnknown token .field => "no field " ++ Text.hexWord token
  | .tokenUnknown token .type => "no type " ++ Text.hexWord token
  | .tokenUnknown token .string => "no str " ++ Text.hexWord token
  | .codeTooLarge size => "Method body of " ++ toString size ++ " bytes is too large"
  | .opcode byte => "Invalid opcode: " ++ Text.hexByteUpper byte
  | .extendedOpcode byte => "Invalid opcode: FE " ++ Text.hexByteUpper byte
  | .branchOffset target => "Branch target " ++ toString target ++ " is out of range"
  | .branchBoundary target =>
    "Branch target " ++ Text.hexOffset target ++ " is not an instruction boundary"
  | .offsetBoundary offset =>
    "Offset " ++ Text.hexOffset offset ++ " is not an instruction boundary"
  | .noLongForm op => op.mnemonic ++ " has no long form"
  | .jumpTableExpected op found =>
    op.mnemonic ++ " expects a jump table, found '" ++ found.render ++ "'"
  | .branchTargetExpected op found =>
    op.mnemonic ++ " expects a branch target, found '" ++ found.render ++ "'"
  | .operandMismatch op found =>
    "Operand '" ++ found.render ++ "' does not match " ++ op.mnemonic
  | .exceedsByte op value => op.mnemonic ++ " operand " ++ toString value ++ " exceeds 8 bits"
  | .shortDisplacement d => "Short branch displacement " ++ toString d ++ " out of range"
  | .displacement d => "Branch displacement " ++ toString d ++ " out of range"
  | .jumpTableDisplacement d => "Switch displacement " ++ toString d ++ " out of range"
  | .jumpTableTooLarge => "Switch table is too large"
  | .bodyTooLarge => "Method body is too large"
  | .layoutUnstable passes =>
    "Branch layout did not stabilize after " ++ toString passes ++ " passes"
  | .methodOperandMissing op => op.mnemonic ++ " without a method operand"
  | .pastEnd => "Control flow runs past the end of the body"
  | .inconsistentDepth i known depth =>
    "Inconsistent stack depth at " ++ i.render ++ ": " ++ toString known ++ " and "
      ++ toString depth
  | .stackUnderflow i depth pops =>
    "Stack underflow at " ++ i.render ++ ": depth " ++ toString depth ++ " but "
      ++ toString pops ++ " pops"
  | .stackTooDeep depth => "Stack depth " ++ toString depth ++ " exceeds u16"
  | .tooManyLocals => "Too many locals"
  | .duplicateField type field =>
    "Type '" ++ type ++ "' already declares field '" ++ field ++ "'"
  | .magic found =>
    "Invalid module image magic - ["
      ++ ", ".intercalate (found.map fun b => Text.hexPadded 2 b.toNat) ++ "]"
  | .version found => "Unsupported module image version - " ++ toString found
  | .trailingData offset => "Trailing data after module image at offset " ++ toString offset
  | .trailingBytes what offset =>
    "Trailing bytes in " ++ what ++ " at offset " ++ toString offset
  | .memberKind kind => "Invalid member reference kind - " ++ toString kind.toNat
  | .conventionContradictsFlags method =>
    "Method '" ++ method ++ "' has a calling convention that contradicts its flags"
  | .parameterCount method named declared =>
    "Method '" ++ method ++ "' names " ++ toString named ++ " parameters but its signature has "
      ++ toString declared
  | .bodyMarker marker method =>
    "Invalid body marker " ++ toString marker.toNat ++ " for method '" ++ method ++ "'"
  | .initFlag value => "Invalid init_locals value " ++ toString value.toNat
  | .clauseFlags flags =>
    "Unsupported exception clause flags - 0x" ++ Text.hexPadded 4 flags.toNat
  | .clauseCatchType offset =>
    "Exception clause at " ++ Text.hexOffset offset ++ " has an inconsistent catch type"
  | .clauseStartsAtEnd => "Exception clause starts at the end of the body"
  | .clauseLength => "Exception clause length overflows"
  | .clauseEndsEarly start =>
    "Exception clause ends before it starts at " ++ Text.hexOffset start
  | .attributeNotMethod row =>
    "Attribute constructor row " ++ toString row ++ " is not a method"
  | .attributeConstructorMissing => "Attribute without constructor"
  | .argumentTag tag =>
    "Unsupported attribute argument tag - 0x" ++ Text.hexPadded 2 tag.toNat

/-- An identity that does not name what it should. -/
inductive BranchFault where
  | unlisted (id : InstrId)
  | danglingTarget (source target : InstrId)
  | targetWithoutSuccessor (id : InstrId)
  | clauseWithoutSuccessor (id : InstrId)
  deriving DecidableEq, Repr

/-- The wording of a branch fault. -/
def BranchFault.message : BranchFault → String
  | .unlisted id => id.render ++ " is not part of the body"
  | .danglingTarget source target =>
    source.render ++ " targets " ++ target.render ++ ", which is not part of the body"
  | .targetWithoutSuccessor id => id.render ++ " is a branch target and has no successor"
  | .clauseWithoutSuccessor id =>
    id.render ++ " starts an exception clause and has no successor"

/-- What a patch annotation gets wrong. -/
inductive AnnotationFlaw where
  | targetTypeMissing
  | targetTypeNotType
  | targetMethodMissing
  | targetMethodNotString
  | injectionNotArray
  | injectionElementNotType
  | tooManyArguments
  /-- The method carries neither of the two annotations that say when a hook runs. -/
  | kindMissing (before after : String)
  | injectArguments (name : String)
  deriving DecidableEq, Repr

/-- The wording of an annotation's flaw. -/
def AnnotationFlaw.message : AnnotationFlaw → String
  | .targetTypeMissing => "missing target type"
  | .targetTypeNotType => "target type argument is not a type"
  | .targetMethodMissing => "missing target method name"
  | .targetMethodNotString => "target method argument is not a string"
  | .injectionNotArray => "injection argument is not a type array"
  | .injectionElementNotType => "injection list holds a non-type element"
  | .tooManyArguments => "too many arguments"
  | .kindMissing before after => "neither " ++ before ++ " nor " ++ after ++ " is present"
  | .injectArguments name => name ++ " expects a single type argument"

/-- Why a hook cannot be called from its target. -/
inductive Misfit where
  | hookNotStatic
  | instanceNotFirst (parameter : String)
  | instanceOnStatic (parameter : String)
  | tooManyArguments (available : Nat)
  | argumentType (parameter : String) (type : TypeSig) (position : Nat)
  | returnType (hook target : TypeSig)
  | resultOnVoid (parameter : String)
  | resultType (parameter : String) (found expected : TypeSig)
  deriving DecidableEq, Repr

/-- The wording of a misfit. -/
def Misfit.message : Misfit → String
  | .hookNotStatic => "the hook is not static"
  | .instanceNotFirst parameter => parameter ++ " must be the first parameter"
  | .instanceOnStatic parameter => parameter ++ " on a static method"
  | .tooManyArguments available =>
    "the hook takes more arguments than the " ++ toString available ++ " of the target"
  | .argumentType parameter type position =>
    "parameter '" ++ parameter ++ "' of type " ++ type.render ++ " does not match argument "
      ++ toString position
  | .returnType hook target =>
    "the hook returns " ++ hook.render ++ " but the target returns " ++ target.render
  | .resultOnVoid parameter => parameter ++ " on a method returning void"
  | .resultType parameter found expected =>
    parameter ++ " is " ++ found.render ++ " but must be " ++ expected.render

/-- The kinds of declaration that can be looked up. -/
inductive DeclarationKind where
  | type | method | field | constructor
  deriving DecidableEq, Repr

/-- The word for a kind of declaration. -/
def DeclarationKind.word : DeclarationKind → String
  | .type => "type"
  | .method => "method"
  | .field => "field"
  | .constructor => "constructor"

/-- Everything that can go wrong. -/
inductive Fault where
  /-- Nothing of that kind and name is declared in `owner`. -/
  | notDeclared (kind : DeclarationKind) (name owner : String)
  | moduleNotOpen (path : String)
  | moduleUnreadable (path : String) (cause : Fault)
  | moduleNotEncoded (path : String) (cause : Fault)
  | moduleNotWritten (path : String) (cause : IoFault)
  /-- The hook carries both of the annotations that say when it runs. -/
  | conflictingKinds (hook : String)
  | flawedPatch (hook : String) (flaw : AnnotationFlaw)
  | misfit (hook target : String) (reason : Misfit)
  | bodyMissing (method : String)
  | bodyEmpty (method : String)
  | bodyEndsWithoutReturn (method : String)
  | argumentOutOfRange (method : String) (position : Nat)
  /-- The evaluation stack of the woven body does not balance. -/
  | bodyUnbalanced (method : String) (cause : Fault)
  | malformed (cause : Malformation)
  | outOfBounds
  | empty
  | recursionLimit (limit : Nat)
  | branch (cause : BranchFault)
  | file (cause : IoFault)
  deriving DecidableEq, Repr

namespace Fault

/-- The wording of a fault. -/
def message : Fault → String
  | notDeclared kind name owner =>
    "Failed to find " ++ kind.word ++ " '" ++ name ++ "' in module '" ++ owner ++ "'"
  | moduleNotOpen path => "Failed to open module " ++ path ++ ": module is not open"
  | moduleUnreadable path cause => "Failed to open module " ++ path ++ ": " ++ cause.message
  | moduleNotEncoded path cause => "Failed to write module " ++ path ++ ": " ++ cause.message
  | moduleNotWritten path cause => "Failed to write module " ++ path ++ ": " ++ cause.message
  | conflictingKinds hook =>
    "Hook '" ++ hook ++ "' declares both prefix and postfix, expected exactly one"
  | flawedPatch hook flaw =>
    "Malformed patch declaration on '" ++ hook ++ "': " ++ flaw.message
  | misfit hook target reason =>
    "Hook '" ++ hook ++ "' does not fit target '" ++ target ++ "': " ++ reason.message
  | bodyMissing method => "Method '" ++ method ++ "' cannot be patched: the method has no body"
  | bodyEmpty method =>
    "Method '" ++ method ++ "' cannot be patched: the body has no instructions"
  | bodyEndsWithoutReturn method =>
    "Method '" ++ method ++ "' cannot be patched: the last instruction is not ret"
  | argumentOutOfRange method position =>
    "Method '" ++ method ++ "' cannot be patched: argument " ++ toString position
      ++ " is out of range"
  | bodyUnbalanced method (malformed cause) =>
    "Method '" ++ method ++ "' cannot be patched: " ++ cause.message
  | bodyUnbalanced method cause =>
    "Method '" ++ method ++ "' cannot be patched: " ++ cause.message
  | malformed cause => "Malformed - " ++ cause.message
  | outOfBounds => "Out of Bound read would have occurred!"
  | empty => "Provided input was empty"
  | recursionLimit limit =>
    "Reach the maximum recursion level allowed - " ++ toString limit
  | branch cause => "Invalid branch: " ++ cause.message
  | file cause => cause.message

end Fault

end HookWeave

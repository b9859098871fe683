/-!
# UTF-8

Strings as bytes, and reading them back. A reader that meets an ill-formed sequence says where it
starts and how much of it was well formed, or that the bytes end inside a sequence.
-/

namespace HookWeave.Text

/-- Why bytes are not UTF-8. -/
inductive Utf8Fault where
  /-- The sequence at `index` goes wrong after `length` bytes. -/
  | invalid (length index : Nat)
  /-- The bytes end inside the sequence at `index`. -/
  | incomplete (index : Nat)
  deriving DecidableEq, Repr

/-- The wording of a fault. -/
def Utf8Fault.message : Utf8Fault → String
  | .invalid length index =>
    "invalid utf-8 sequence of " ++ toString length ++ " bytes from index " ++ toString index
  | .incomplete index => "incomplete utf-8 byte sequence from index " ++ toString index

/-- The UTF-8 bytes of a string. -/
def utf8 (s : String) : List UInt8 :=
  s.toList.flatMap String.utf8EncodeChar

/-- What follows a lead byte: how many bytes, and the range of the first of them. Overlong forms,
surrogates and values beyond the last code point are ruled out by that range. -/
def following? (lead : UInt8) : Option (Nat × UInt8 × UInt8) :=
  if lead < 0xC2 then none
  else if lead < 0xE0 then some (1, 0x80, 0xBF)
  else if lead = 0xE0 then some (2, 0xA0, 0xBF)
  else if lead = 0xED then some (2, 0x80, 0x9F)
  else if lead < 0xF0 then some (2, 0x80, 0xBF)
  else if lead = 0xF0 then some (3, 0x90, 0xBF)
  else if lead < 0xF4 then some (3, 0x80, 0xBF)
  else if lead = 0xF4 then some (3, 0x80, 0x8F)
  else none

/-- The payload of a byte after the first. -/
def payload (b : UInt8) : Nat :=
  b.toNat % 64

/-- Reads characters to the end of the bytes; `index` is the offset of the first byte. -/
def readChars (index : Nat) : List UInt8 → Except Utf8Fault (List Char)
  | [] => .ok []
  | lead :: rest =>
    if lead < 0x80 then (Char.ofNat lead.toNat :: ·) <$> readChars (index + 1) rest
    else
      match following? lead with
      | none => .error (.invalid 1 index)
      | some (count, low, high) =>
        match rest with
        | [] => .error (.incomplete index)
        | second :: rest =>
          if second < low || high < second then .error (.invalid 1 index)
          else if count = 1 then
            (Char.ofNat (lead.toNat % 32 * 64 + payload second) :: ·) <$> readChars (index + 2) rest
          else
            match rest with
            | [] => .error (.incomplete index)
            | third :: rest =>
              if third < 0x80 || 0xBF < third then .error (.invalid 2 index)
              else if count = 2 then
                (Char.ofNat ((lead.toNat % 16 * 64 + payload second) * 64 + payload third) :: ·)
                  <$> readChars (index + 3) rest
              else
                match rest with
                | [] => .error (.incomplete index)
                | fourth :: rest =>
                  if fourth < 0x80 || 0xBF < fourth then .error (.invalid 3 index)
                  else
                    (Char.ofNat (((lead.toNat % 8 * 64 + payload second) * 64 + payload third) * 64
                      + payload fourth) :: ·) <$> readChars (index + 4) rest

/-- Reads bytes as a string. -/
def ofUtf8 (bytes : List UInt8) : Except Utf8Fault String :=
  String.ofList <$> readChars 0 bytes

end HookWeave.Text

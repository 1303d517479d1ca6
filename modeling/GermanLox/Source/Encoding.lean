/-!
# Source bytes

Reading a source means reading bytes and taking them for UTF-8. Bytes that are none are reported
by place: how many of them cannot start or continue a character, or that the last character is cut
off.
-/

namespace GermanLox

/-- Why bytes are no UTF-8. -/
inductive EncodingFault where
  /-- That many bytes from a place on belong to no character. -/
  | invalid (length index : Nat)
  /-- The character at a place is cut off by the end. -/
  | incomplete (index : Nat)
deriving DecidableEq

def EncodingFault.message : EncodingFault → String
  | invalid length index =>
    "invalid utf-8 sequence of " ++ length.repr ++ " bytes from index " ++ index.repr
  | incomplete index => "incomplete utf-8 byte sequence from index " ++ index.repr

/-- Why a file could not be read. -/
inductive ReadFault where
  | missing
  | notADirectory
  | isDirectory
  | nameTooLong
  | other (reason : String) (code : Nat)
  | encoding (fault : EncodingFault)
deriving DecidableEq

/-- The wording of a failure that the operating system reports by number. -/
def systemMessage (reason : String) (code : Nat) : String :=
  reason ++ " (os error " ++ code.repr ++ ")"

def ReadFault.message : ReadFault → String
  | missing => systemMessage "No such file or directory" 2
  | notADirectory => systemMessage "Not a directory" 20
  | isDirectory => systemMessage "Is a directory" 21
  | nameTooLong => systemMessage "File name too long" 36
  | other reason code => systemMessage reason code
  | encoding fault => fault.message

namespace Utf8

/-- What the first byte of a character says about the rest. -/
structure Lead where
  /-- The bits of the character that the byte itself holds. -/
  bits : Nat
  /-- How many bytes follow. -/
  tail : Nat
  /-- The least value of the next byte. -/
  low : Nat := 0x80
  /-- The greatest value of the next byte. -/
  high : Nat := 0xbf

/-- The bytes that can start a character. The range of the second byte keeps out characters
written too long, surrogates and what lies beyond the last character. -/
def lead? (byte : Nat) : Option Lead :=
  if byte < 0x80 then some { bits := byte, tail := 0 }
  else if byte < 0xc2 then none
  else if byte < 0xe0 then some { bits := byte - 0xc0, tail := 1 }
  else if byte = 0xe0 then some { bits := 0, tail := 2, low := 0xa0 }
  else if byte = 0xed then some { bits := 0xd, tail := 2, high := 0x9f }
  else if byte < 0xf0 then some { bits := byte - 0xe0, tail := 2 }
  else if byte = 0xf0 then some { bits := 0, tail := 3, low := 0x90 }
  else if byte < 0xf4 then some { bits := byte - 0xf0, tail := 3 }
  else if byte = 0xf4 then some { bits := 4, tail := 3, high := 0x8f }
  else none

/-- Takes up the bytes after the first one. A failure tells how many bytes were good, or nothing
if the bytes ran out. -/
def follow (bits good low high : Nat) : Nat → List UInt8 → Except (Option Nat) Nat
  | 0, _ => .ok bits
  | _ + 1, [] => .error none
  | tail + 1, byte :: bytes =>
    if low ≤ byte.toNat ∧ byte.toNat ≤ high then
      follow (bits * 64 + byte.toNat % 64) (good + 1) 0x80 0xbf tail bytes
    else .error (some good)

/-- The characters from a place on, where the first bytes belong to a character already taken;
`before` are the characters so far, the last one first. -/
def decodeFrom (before : List Char) : Nat → Nat → List UInt8 → Except EncodingFault (List Char)
  | _, _, [] => .ok before.reverse
  | taken + 1, index, _ :: bytes => decodeFrom before taken (index + 1) bytes
  | 0, index, byte :: bytes =>
    match lead? byte.toNat with
    | none => .error (.invalid 1 index)
    | some lead =>
      match follow lead.bits 1 lead.low lead.high lead.tail bytes with
      | .error none => .error (.incomplete index)
      | .error (some good) => .error (.invalid good index)
      | .ok code => decodeFrom (Char.ofNat code :: before) lead.tail (index + 1) bytes

/-- The text that bytes spell. -/
def decode (bytes : List UInt8) : Except EncodingFault String :=
  (decodeFrom [] 0 0 bytes).map String.ofList

end Utf8

/-- The text of a source, from its bytes or the failure to get them. -/
def readSource (bytes : Except ReadFault (List UInt8)) : Except ReadFault String :=
  match bytes with
  | .error fault => .error fault
  | .ok bytes => (Utf8.decode bytes).mapError ReadFault.encoding

end GermanLox

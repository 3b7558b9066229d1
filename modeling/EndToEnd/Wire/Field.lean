import EndToEnd.Wire.Error

/-!
# Fields of a message

A message is a version byte and fields in a fixed order. A field is a tag byte, then either a number
of four bytes, least significant first, or a string behind its length in the same form. Strings have
at most `maxFieldSize` bytes, on both sides: a length is refused before it is believed.
-/

namespace EndToEnd.Wire

/-- The version that is spoken. -/
def currentVersion : UInt8 := 3

/-- The most bytes that a string field holds. -/
def maxFieldSize : Nat := 1048576

/-! ## Writing -/

/-- A number of four bytes. -/
def writeWord (n : UInt32) : Bytes := Bytes.littleEndian 4 n.toNat

/-- A string behind its length, unless it is too long. -/
def writeString (part : Part) (content : Bytes) : Except Error Bytes :=
  if content.length ≤ maxFieldSize then
    .ok (Bytes.littleEndian 4 content.length ++ content)
  else .error (.tooLarge part content.length maxFieldSize)

/-! ## Reading -/

/-- The version byte. -/
def readVersion : Bytes → Except Error (UInt8 × Bytes)
  | [] => .error (.truncated .version 1 0)
  | version :: rest =>
    if version = currentVersion then .ok (version, rest) else .error (.unsupportedVersion version)

/-- What follows the tag of a field. -/
def readTag (part : Part) (expected : UInt8) : Bytes → Except Error Bytes
  | [] => .error (.truncated part 1 0)
  | actual :: rest =>
    if actual = expected then .ok rest else .error (.unexpectedTag part expected actual)

/-- A number of four bytes. -/
def readWord (part : Part) : Bytes → Except Error (UInt32 × Bytes)
  | b₀ :: b₁ :: b₂ :: b₃ :: rest => .ok ((Bytes.natLE [b₀, b₁, b₂, b₃]).toUInt32, rest)
  | bs => .error (.truncated part 4 bs.length)

/-- A string behind its length. -/
def readString (part : Part) (bs : Bytes) : Except Error (Bytes × Bytes) := do
  let (length, rest) ← readWord part bs
  let length := length.toNat
  if length > maxFieldSize then .error (.tooLarge part length maxFieldSize)
  else if rest.length < length then .error (.truncated part length rest.length)
  else return (rest.take length, rest.drop length)

/-- The end of a message. -/
def readEnd : Bytes → Except Error Unit
  | [] => .ok ()
  | rest => .error (.trailingBytes rest.length)

end EndToEnd.Wire

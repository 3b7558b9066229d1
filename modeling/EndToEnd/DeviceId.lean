import EndToEnd.Bytes

/-!
# Device identifiers

A device is named by a random number below `2¹²⁸`. Its text form is 32 lowercase hexadecimal digits;
a text is read back leniently, with digits of either case, any number of leading zeros and an
optional plus sign.
-/

namespace EndToEnd

namespace Hex

/-- The lowercase digit of a number below sixteen. -/
def digit (n : Nat) : Char :=
  if n < 10 then Char.ofNat (48 + n) else Char.ofNat (87 + n)

/-- The number of a digit of either case. -/
def value? (c : Char) : Option Nat :=
  if '0' ≤ c ∧ c ≤ '9' then some (c.toNat - 48)
  else if 'a' ≤ c ∧ c ≤ 'f' then some (c.toNat - 87)
  else if 'A' ≤ c ∧ c ≤ 'F' then some (c.toNat - 55)
  else none

/-- The low `width` digits of a number, the last one first. -/
def reversedDigits : (width : Nat) → Nat → List Char
  | 0, _ => []
  | width + 1, n => digit (n % 16) :: reversedDigits width (n / 16)

/-- The low `width` digits of a number. -/
def digits (width n : Nat) : List Char := (reversedDigits width n).reverse

/-- A byte with two digits behind the mark of the base. -/
def byteText (b : UInt8) : String := "0x" ++ String.ofList (digits 2 b.toNat)

end Hex

/-- The name of a device. -/
@[ext] structure DeviceId where
  number : Nat
  number_lt : number < Nat.pow 2 128
deriving DecidableEq

namespace DeviceId

/-- Why a text names no device. -/
inductive ParseError
  | empty
  | invalidDigit
  | tooLarge
deriving DecidableEq

/-- The text of a refusal. -/
def ParseError.message : ParseError → String
  | .empty => "cannot parse integer from empty string"
  | .invalidDigit => "invalid digit found in string"
  | .tooLarge => "number too large to fit in target type"

/-- The device of a number, reduced to the range of identifiers. -/
def ofNat (n : Nat) : DeviceId := ⟨n % Nat.pow 2 128, Nat.mod_lt n (by decide)⟩

/-- The device of a number in the range of identifiers. -/
def ofNat? (n : Nat) : Option DeviceId :=
  if h : n < Nat.pow 2 128 then some ⟨n, h⟩ else none

/-- The text form. -/
def text (d : DeviceId) : String := String.ofList (Hex.digits 32 d.number)

/-- Sixteen bytes, most significant first. -/
def bytes (d : DeviceId) : Octets 16 := ⟨Bytes.bigEndian 16 d.number, Bytes.length_bigEndian 16 _⟩

/-- The number that further digits make of the one read so far. -/
def readDigits : List Char → DeviceId → Except ParseError DeviceId
  | [], read => .ok read
  | c :: cs, read =>
    match Hex.value? c with
    | none => .error .invalidDigit
    | some value =>
      match ofNat? (16 * read.number + value) with
      | none => .error .tooLarge
      | some read => readDigits cs read

/-- The device that a text names. -/
def parse (s : String) : Except ParseError DeviceId :=
  let zero : DeviceId := ⟨0, by decide⟩
  match s.toList with
  | [] => .error .empty
  | '+' :: c :: cs => readDigits (c :: cs) zero
  | cs => readDigits cs zero

end DeviceId

end EndToEnd

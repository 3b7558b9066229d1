import EndToEnd.Bytes

/-!
# Heads of CBOR items

Every CBOR item opens with a head: three bits of major type and an argument, which is in the
same byte or in the one, two, four or eight after it. `Head` is what a head says; `Head.read` takes
any width of the argument, `writeHead` only ever writes the least.
-/

namespace EndToEnd.Cbor

/-- The head of an item. A length of `none` announces pieces up to a break. -/
inductive Head
  | unsigned (n : Nat)
  | negative (n : Nat)
  | bytes (length : Option Nat)
  | text (length : Option Nat)
  | array (length : Option Nat)
  | map (length : Option Nat)
  | tag (n : Nat)
  | simple (n : Nat)
  | float
  | stop
deriving DecidableEq

/-- The simple value `false`. -/
def simpleFalse : Nat := 20
/-- The simple value `true`. -/
def simpleTrue : Nat := 21
/-- The simple value `null`. -/
def simpleNull : Nat := 22
/-- The simple value `undefined`. -/
def simpleUndefined : Nat := 23

/-- The tag of a nonnegative number written as bytes. -/
def tagBig : Nat := 2
/-- The tag of a negative number written as bytes. -/
def tagBigNegative : Nat := 3

/-- The first `n` bytes and what follows them, if there are that many. -/
def splitBytes (n : Nat) (bs : Bytes) : Option (Bytes × Bytes) :=
  let front := bs.take n
  if front.length = n then some (front, bs.drop n) else none

/-- The number in the first `n` bytes, most significant first. -/
def readNumber (n : Nat) (bs : Bytes) : Option (Nat × Bytes) :=
  (splitBytes n bs).map fun (front, rest) => (Bytes.natBE front, rest)

/-- The argument of a head whose low five bits are `info`; `none` for an open length. -/
def readArgument (info : Nat) (bs : Bytes) : Option (Option Nat × Bytes) :=
  let sized (n : Nat) := (readNumber n bs).map fun (value, rest) => (some value, rest)
  match info with
  | 24 => sized 1
  | 25 => sized 2
  | 26 => sized 4
  | 27 => sized 8
  | 28 | 29 | 30 => none
  | 31 => some (none, bs)
  | _ => some (some info, bs)

/-- What a major type and an argument say. Numbers and tags have no open form. -/
def Head.ofParts (major info : Nat) (argument : Option Nat) : Option Head :=
  match major, argument with
  | 0, some n => some (.unsigned n)
  | 1, some n => some (.negative n)
  | 2, length => some (.bytes length)
  | 3, length => some (.text length)
  | 4, length => some (.array length)
  | 5, length => some (.map length)
  | 6, some n => some (.tag n)
  | 7, some n => some (if info ≤ 24 then .simple n else .float)
  | 7, none => some .stop
  | _, _ => none

/-- The head at the front of the bytes. -/
def Head.read : Bytes → Option (Head × Bytes)
  | [] => none
  | first :: rest => do
    let info := first.toNat % 32
    let (argument, rest) ← readArgument info rest
    let head ← Head.ofParts (first.toNat / 32) info argument
    return (head, rest)

/-- The head of a major type with an argument below `2⁶⁴`, in the least number of bytes. -/
def writeHead (major n : Nat) : Bytes :=
  let first (info : Nat) : UInt8 := (32 * major + info).toUInt8
  if n < 24 then [first n]
  else if n < Nat.pow 2 8 then first 24 :: Bytes.bigEndian 1 n
  else if n < Nat.pow 2 16 then first 25 :: Bytes.bigEndian 2 n
  else if n < Nat.pow 2 32 then first 26 :: Bytes.bigEndian 4 n
  else first 27 :: Bytes.bigEndian 8 n

end EndToEnd.Cbor

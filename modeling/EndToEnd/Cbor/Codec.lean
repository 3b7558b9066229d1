import EndToEnd.Cbor.Skip
import EndToEnd.DeviceId

/-!
# CBOR codecs of values

A codec is a writer and a reader of one type. Writers have one form for each value: the least heads,
announced lengths, byte strings as arrays of numbers. Readers are lenient: see `Read`. A codec also
says what a missing field of its type stands for, and what a byte stands for where a sequence is
written as a byte string.

A record is a map from the names of its fields. Its codec is built from the list of them: the writer
keeps their order, and the reader takes them in any order, once each, and passes over other keys.
-/

namespace EndToEnd.Cbor

/-- How values of a type are written and read. -/
structure Codec (α : Type) where
  write : α → Bytes
  read : Budget → Bytes → Option (α × Bytes)
  /-- The value of a field that is missing. -/
  absent : Option α := none
  /-- The value of a byte in a byte string that stands for a sequence. -/
  ofByte : UInt8 → Option α := fun _ => none

namespace Codec

/-! ## Numbers, truth values and texts -/

/-- A number below `2⁶⁴`. -/
def writeNat (n : Nat) : Bytes := writeHead 0 n

/-- A number that `ofNat?` takes, read. -/
def readWord {α : Type} (ofNat? : Nat → Option α) (budget : Budget) (bs : Bytes) :
    Option (α × Bytes) := do
  let (n, rest) ← readNat budget budget.steps bs
  let word ← ofNat? n
  return (word, rest)

/-- A byte. -/
def octet : Codec UInt8 where
  write b := writeNat b.toNat
  read := readWord fun n => if n < Nat.pow 2 8 then some n.toUInt8 else none
  ofByte b := some b

/-- A number of 32 bits. -/
def word32 : Codec UInt32 where
  write n := writeNat n.toNat
  read := readWord fun n => if n < Nat.pow 2 32 then some n.toUInt32 else none

/-- A number of 64 bits. -/
def word64 : Codec UInt64 where
  write n := writeNat n.toNat
  read := readWord fun n => if n < Nat.pow 2 64 then some n.toUInt64 else none

/-- A device: a number, which is written as bytes from `2⁶⁴` on. -/
def deviceId : Codec DeviceId where
  write d :=
    if d.number < Nat.pow 2 64 then writeNat d.number
    else
      let content := d.bytes.bytes.dropWhile (· = 0)
      writeHead 6 tagBig ++ writeHead 2 content.length ++ content
  read := readWord DeviceId.ofNat?

/-- A truth value. -/
def bool : Codec Bool where
  write b := writeHead 7 (if b then simpleTrue else simpleFalse)
  read := readBool

/-- A text. -/
def text : Codec String where
  write s := let content := Bytes.ofText s; writeHead 3 content.length ++ content
  read := readText

/-! ## Sequences -/

/-- The values of an announced or an open array. -/
def readArray {α : Type} (c : Codec α) (budget : Budget) (length : Option Nat) (bs : Bytes) :
    Option (List α × Bytes) := do
  let inner ← budget.descend
  match length with
  | some count => readItems (c.read inner) false count [] bs
  | none => readItems (c.read inner) true budget.steps [] bs

/-- A sequence of any length: an array, or a byte string of values that bytes stand for. -/
def list {α : Type} (c : Codec α) : Codec (List α) where
  write items := writeHead 4 items.length ++ items.flatMap c.write
  read budget bs := do
    let (head, rest) ← readPastTags budget.steps bs
    match head with
    | .array length => readArray c budget length rest
    | .bytes length =>
      let (content, rest) ← readString .bytes budget length rest
      let items ← content.mapM c.ofByte
      return (items, rest)
    | _ => none

/-- Bytes: a sequence of them. -/
def bytes : Codec Bytes := list octet

/-- The first values of an announced or an open array. -/
def readArrayFront {α : Type} (c : Codec α) (n : Nat) (budget : Budget) (length : Option Nat)
    (bs : Bytes) : Option (List α × Bytes) := do
  let inner ← budget.descend
  match length with
  | some count => if n ≤ count then readFirst (c.read inner) false n [] bs else none
  | none => readFirst (c.read inner) true n [] bs

/-- Bytes of a fixed number: the front of an array, of which the rest is left to be read, or the
front of a byte string, of which the rest is dropped. -/
def octets (n : Nat) : Codec (Octets n) where
  write o := bytes.write o.bytes
  read budget bs := do
    let (head, rest) ← readPastTags budget.steps bs
    let (content, rest) ← match head with
      | .array length => readArrayFront octet n budget length rest
      | .bytes length => readString .bytes budget length rest
      | _ => none
    let o ← Octets.ofBytes? n (content.take n)
    return (o, rest)

/-- A value or none. A missing field is none; so are `null` and `undefined`, unless tagged. -/
def option {α : Type} (c : Codec α) : Codec (Option α) where
  write
    | some v => c.write v
    | none => writeHead 7 simpleNull
  read budget bs :=
    match Head.read bs with
    | some (.simple n, rest) =>
      if n = simpleNull ∨ n = simpleUndefined then some (none, rest)
      else (c.read budget bs).map fun (v, rest) => (some v, rest)
    | _ => (c.read budget bs).map fun (v, rest) => (some v, rest)
  absent := some none

end Codec

/-! ## Records -/

/-- A named field of a record. -/
structure Field where
  name : String
  type : Type
  codec : Codec type

/-- The values of fields. -/
def Values : List Field → Type
  | [] => Unit
  | f :: fs => f.type × Values fs

/-- The values of fields as far as they are known. -/
def Slots : List Field → Type
  | [] => Unit
  | f :: fs => Option f.type × Slots fs

namespace Slots

/-- No field is known yet. -/
def empty : (fs : List Field) → Slots fs
  | [] => ()
  | _ :: fs => (none, empty fs)

/-- The value of a key read into its slot, if the key is a field's name. A name comes once. -/
def fill (budget : Budget) (key : Bytes) (bs : Bytes) :
    (fs : List Field) → Slots fs → Option (Option (Slots fs × Bytes))
  | [], _ => none
  | f :: fs, (slot, slots) =>
    if key = Bytes.ofText f.name then
      some <|
        match slot with
        | some _ => none
        | none => (f.codec.read budget bs).map fun (v, rest) => ((some v, slots), rest)
    else
      (fill budget key bs fs slots).map fun result =>
        result.map fun (slots, rest) => ((slot, slots), rest)

/-- The values, once no key is left. -/
def values? : (fs : List Field) → Slots fs → Option (Values fs)
  | [], _ => some ()
  | f :: fs, (slot, slots) => do
    let v ← slot <|> f.codec.absent
    let vs ← values? fs slots
    return (v, vs)

/-- One key and its value: a field, or something to pass over. -/
def readEntry (budget : Budget) (fs : List Field) (slots : Slots fs) (bs : Bytes) :
    Option (Slots fs × Bytes) := do
  let (key, rest) ← readKey budget bs
  match fill budget key rest fs slots with
  | some result => result
  | none =>
    let rest ← skipItem budget rest
    return (slots, rest)

/-- The entries of a map. An announced number of them is read in full; otherwise they end at a
break, and `count` only bounds them. -/
def readEntries (budget : Budget) (fs : List Field) (unbounded : Bool) :
    (count : Nat) → Slots fs → Bytes → Option (Slots fs × Bytes)
  | 0, slots, bs => if unbounded then none else some (slots, bs)
  | count + 1, slots, bs =>
    match unbounded, readStop? bs with
    | true, some rest => some (slots, rest)
    | _, _ => do
      let (slots, rest) ← readEntry budget fs slots bs
      readEntries budget fs unbounded count slots rest

end Slots

/-- The fields of a record written in order. -/
def Values.write : (fs : List Field) → Values fs → Bytes
  | [], _ => []
  | f :: fs, (v, vs) => Codec.text.write f.name ++ f.codec.write v ++ Values.write fs vs

/-- The fields of a record read from a map. -/
def readRecord (fs : List Field) (budget : Budget) (bs : Bytes) : Option (Values fs × Bytes) := do
  let (.map length, rest) ← readPastTags budget.steps bs | none
  let inner ← budget.descend
  let (slots, rest) ← match length with
    | some count => Slots.readEntries inner fs false count (.empty fs) rest
    | none => Slots.readEntries inner fs true budget.steps (.empty fs) rest
  let values ← slots.values?
  return (values, rest)

/-- A record: a map from the names of its fields. -/
def Codec.record {α : Type} (fs : List Field) (toValues : α → Values fs)
    (ofValues : Values fs → α) : Codec α where
  write v := writeHead 5 fs.length ++ Values.write fs (toValues v)
  read budget bs := (readRecord fs budget bs).map fun (vs, rest) => (ofValues vs, rest)

end EndToEnd.Cbor

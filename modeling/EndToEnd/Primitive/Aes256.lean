import EndToEnd.Bytes

/-!
# AES-256

The block cipher with a key of 32 bytes. A block is four columns, each a word with its first row in
the highest byte, so adding a round key is four exclusive ors, and mixing a column works on its four
rows at once. `BlockCipher` is what a mode of operation needs of a cipher under one key.
-/

namespace EndToEnd

/-- A block of the cipher. -/
abbrev Block := Octets 16

/-- The two directions of a cipher under one key. -/
structure BlockCipher where
  encrypt : Block → Block
  decrypt : Block → Block

namespace Aes256

set_option maxRecDepth 4000 in
/-- The substitution table: inversion in the field of 256 elements, then an affine map. -/
def substitution : Vector UInt8 256 := Vector.mk #[
  0x63, 0x7c, 0x77, 0x7b, 0xf2, 0x6b, 0x6f, 0xc5, 0x30, 0x01, 0x67, 0x2b, 0xfe, 0xd7, 0xab, 0x76,
  0xca, 0x82, 0xc9, 0x7d, 0xfa, 0x59, 0x47, 0xf0, 0xad, 0xd4, 0xa2, 0xaf, 0x9c, 0xa4, 0x72, 0xc0,
  0xb7, 0xfd, 0x93, 0x26, 0x36, 0x3f, 0xf7, 0xcc, 0x34, 0xa5, 0xe5, 0xf1, 0x71, 0xd8, 0x31, 0x15,
  0x04, 0xc7, 0x23, 0xc3, 0x18, 0x96, 0x05, 0x9a, 0x07, 0x12, 0x80, 0xe2, 0xeb, 0x27, 0xb2, 0x75,
  0x09, 0x83, 0x2c, 0x1a, 0x1b, 0x6e, 0x5a, 0xa0, 0x52, 0x3b, 0xd6, 0xb3, 0x29, 0xe3, 0x2f, 0x84,
  0x53, 0xd1, 0x00, 0xed, 0x20, 0xfc, 0xb1, 0x5b, 0x6a, 0xcb, 0xbe, 0x39, 0x4a, 0x4c, 0x58, 0xcf,
  0xd0, 0xef, 0xaa, 0xfb, 0x43, 0x4d, 0x33, 0x85, 0x45, 0xf9, 0x02, 0x7f, 0x50, 0x3c, 0x9f, 0xa8,
  0x51, 0xa3, 0x40, 0x8f, 0x92, 0x9d, 0x38, 0xf5, 0xbc, 0xb6, 0xda, 0x21, 0x10, 0xff, 0xf3, 0xd2,
  0xcd, 0x0c, 0x13, 0xec, 0x5f, 0x97, 0x44, 0x17, 0xc4, 0xa7, 0x7e, 0x3d, 0x64, 0x5d, 0x19, 0x73,
  0x60, 0x81, 0x4f, 0xdc, 0x22, 0x2a, 0x90, 0x88, 0x46, 0xee, 0xb8, 0x14, 0xde, 0x5e, 0x0b, 0xdb,
  0xe0, 0x32, 0x3a, 0x0a, 0x49, 0x06, 0x24, 0x5c, 0xc2, 0xd3, 0xac, 0x62, 0x91, 0x95, 0xe4, 0x79,
  0xe7, 0xc8, 0x37, 0x6d, 0x8d, 0xd5, 0x4e, 0xa9, 0x6c, 0x56, 0xf4, 0xea, 0x65, 0x7a, 0xae, 0x08,
  0xba, 0x78, 0x25, 0x2e, 0x1c, 0xa6, 0xb4, 0xc6, 0xe8, 0xdd, 0x74, 0x1f, 0x4b, 0xbd, 0x8b, 0x8a,
  0x70, 0x3e, 0xb5, 0x66, 0x48, 0x03, 0xf6, 0x0e, 0x61, 0x35, 0x57, 0xb9, 0x86, 0xc1, 0x1d, 0x9e,
  0xe1, 0xf8, 0x98, 0x11, 0x69, 0xd9, 0x8e, 0x94, 0x9b, 0x1e, 0x87, 0xe9, 0xce, 0x55, 0x28, 0xdf,
  0x8c, 0xa1, 0x89, 0x0d, 0xbf, 0xe6, 0x42, 0x68, 0x41, 0x99, 0x2d, 0x0f, 0xb0, 0x54, 0xbb, 0x16]
  rfl

set_option maxRecDepth 4000 in
/-- The table that undoes the substitution. -/
def inverseSubstitution : Vector UInt8 256 := Vector.mk #[
  0x52, 0x09, 0x6a, 0xd5, 0x30, 0x36, 0xa5, 0x38, 0xbf, 0x40, 0xa3, 0x9e, 0x81, 0xf3, 0xd7, 0xfb,
  0x7c, 0xe3, 0x39, 0x82, 0x9b, 0x2f, 0xff, 0x87, 0x34, 0x8e, 0x43, 0x44, 0xc4, 0xde, 0xe9, 0xcb,
  0x54, 0x7b, 0x94, 0x32, 0xa6, 0xc2, 0x23, 0x3d, 0xee, 0x4c, 0x95, 0x0b, 0x42, 0xfa, 0xc3, 0x4e,
  0x08, 0x2e, 0xa1, 0x66, 0x28, 0xd9, 0x24, 0xb2, 0x76, 0x5b, 0xa2, 0x49, 0x6d, 0x8b, 0xd1, 0x25,
  0x72, 0xf8, 0xf6, 0x64, 0x86, 0x68, 0x98, 0x16, 0xd4, 0xa4, 0x5c, 0xcc, 0x5d, 0x65, 0xb6, 0x92,
  0x6c, 0x70, 0x48, 0x50, 0xfd, 0xed, 0xb9, 0xda, 0x5e, 0x15, 0x46, 0x57, 0xa7, 0x8d, 0x9d, 0x84,
  0x90, 0xd8, 0xab, 0x00, 0x8c, 0xbc, 0xd3, 0x0a, 0xf7, 0xe4, 0x58, 0x05, 0xb8, 0xb3, 0x45, 0x06,
  0xd0, 0x2c, 0x1e, 0x8f, 0xca, 0x3f, 0x0f, 0x02, 0xc1, 0xaf, 0xbd, 0x03, 0x01, 0x13, 0x8a, 0x6b,
  0x3a, 0x91, 0x11, 0x41, 0x4f, 0x67, 0xdc, 0xea, 0x97, 0xf2, 0xcf, 0xce, 0xf0, 0xb4, 0xe6, 0x73,
  0x96, 0xac, 0x74, 0x22, 0xe7, 0xad, 0x35, 0x85, 0xe2, 0xf9, 0x37, 0xe8, 0x1c, 0x75, 0xdf, 0x6e,
  0x47, 0xf1, 0x1a, 0x71, 0x1d, 0x29, 0xc5, 0x89, 0x6f, 0xb7, 0x62, 0x0e, 0xaa, 0x18, 0xbe, 0x1b,
  0xfc, 0x56, 0x3e, 0x4b, 0xc6, 0xd2, 0x79, 0x20, 0x9a, 0xdb, 0xc0, 0xfe, 0x78, 0xcd, 0x5a, 0xf4,
  0x1f, 0xdd, 0xa8, 0x33, 0x88, 0x07, 0xc7, 0x31, 0xb1, 0x12, 0x10, 0x59, 0x27, 0x80, 0xec, 0x5f,
  0x60, 0x51, 0x7f, 0xa9, 0x19, 0xb5, 0x4a, 0x0d, 0x2d, 0xe5, 0x7a, 0x9f, 0x93, 0xc9, 0x9c, 0xef,
  0xa0, 0xe0, 0x3b, 0x4d, 0xae, 0x2a, 0xf5, 0xb0, 0xc8, 0xeb, 0xbb, 0x3c, 0x83, 0x53, 0x99, 0x61,
  0x17, 0x2b, 0x04, 0x7e, 0xba, 0x77, 0xd6, 0x26, 0xe1, 0x69, 0x14, 0x63, 0x55, 0x21, 0x0c, 0x7d]
  rfl

/-- The substitution of one byte. -/
@[inline] def substitute (b : UInt8) : UInt8 := substitution.get b.toFin

/-- The inverse substitution of one byte. -/
@[inline] def unsubstitute (b : UInt8) : UInt8 := inverseSubstitution.get b.toFin

/-- The four columns of a block, or of a round key. -/
structure Columns where
  c₀ : UInt32
  c₁ : UInt32
  c₂ : UInt32
  c₃ : UInt32

/-- Column by column exclusive or. -/
@[inline] def Columns.xor (s t : Columns) : Columns :=
  ⟨s.c₀ ^^^ t.c₀, s.c₁ ^^^ t.c₁, s.c₂ ^^^ t.c₂, s.c₃ ^^^ t.c₃⟩

/-- Rotation to the left, by less than 32 places. -/
@[inline] def rotateLeft (w n : UInt32) : UInt32 := (w <<< n) ||| (w >>> (32 - n))

/-- A column from its four rows. -/
@[inline] def column (r₀ r₁ r₂ r₃ : UInt8) : UInt32 :=
  (r₀.toUInt32 <<< 24) ||| (r₁.toUInt32 <<< 16) ||| (r₂.toUInt32 <<< 8) ||| r₃.toUInt32

/-- The four rows of a column. -/
def columnBytes (w : UInt32) : Bytes :=
  [(w >>> 24).toUInt8, (w >>> 16).toUInt8, (w >>> 8).toUInt8, w.toUInt8]

/-- A column whose rows are the mapped first, second, third and fourth row of four columns. -/
@[inline] def gather (f : UInt8 → UInt8) (w₀ w₁ w₂ w₃ : UInt32) : UInt32 :=
  column (f (w₀ >>> 24).toUInt8) (f (w₁ >>> 16).toUInt8) (f (w₂ >>> 8).toUInt8) (f w₃.toUInt8)

/-- The substitution of every row. -/
@[inline] def substituteColumn (w : UInt32) : UInt32 := gather substitute w w w w

/-- Substitution, and row `r` shifted `r` columns to the left. -/
@[inline] def Columns.substituteShift (s : Columns) : Columns :=
  ⟨gather substitute s.c₀ s.c₁ s.c₂ s.c₃, gather substitute s.c₁ s.c₂ s.c₃ s.c₀,
    gather substitute s.c₂ s.c₃ s.c₀ s.c₁, gather substitute s.c₃ s.c₀ s.c₁ s.c₂⟩

/-- Row `r` shifted `r` columns to the right, and the inverse substitution. -/
@[inline] def Columns.unsubstituteShift (s : Columns) : Columns :=
  ⟨gather unsubstitute s.c₀ s.c₃ s.c₂ s.c₁, gather unsubstitute s.c₁ s.c₀ s.c₃ s.c₂,
    gather unsubstitute s.c₂ s.c₁ s.c₀ s.c₃, gather unsubstitute s.c₃ s.c₂ s.c₁ s.c₀⟩

/-- Twice each row, in the field of 256 elements. -/
@[inline] def double (w : UInt32) : UInt32 :=
  let high : UInt32 := (w >>> 7) &&& 0x01010101
  let low : UInt32 := (w <<< 1) &&& 0xfefefefe
  low ^^^ (high * 0x1b)

/-- A column times the matrix whose first row is 2, 3, 1, 1. -/
@[inline] def mixColumn (w : UInt32) : UInt32 :=
  let d := double w
  d ^^^ rotateLeft (d ^^^ w) 8 ^^^ rotateLeft w 16 ^^^ rotateLeft w 24

/-- A column times the inverse matrix: the matrix of first row 5, 0, 4, 0, then the one above. -/
@[inline] def unmixColumn (w : UInt32) : UInt32 :=
  mixColumn (w ^^^ double (double (w ^^^ rotateLeft w 16)))

/-- Every column mixed. -/
@[inline] def Columns.mix (s : Columns) : Columns :=
  ⟨mixColumn s.c₀, mixColumn s.c₁, mixColumn s.c₂, mixColumn s.c₃⟩

/-- Every column unmixed. -/
@[inline] def Columns.unmix (s : Columns) : Columns :=
  ⟨unmixColumn s.c₀, unmixColumn s.c₁, unmixColumn s.c₂, unmixColumn s.c₃⟩

/-- The columns that a byte string of sixteen bytes spells. -/
def Columns.ofBytes : Bytes → Columns
  | [a₀, a₁, a₂, a₃, b₀, b₁, b₂, b₃, c₀, c₁, c₂, c₃, d₀, d₁, d₂, d₃] =>
    ⟨column a₀ a₁ a₂ a₃, column b₀ b₁ b₂ b₃, column c₀ c₁ c₂ c₃, column d₀ d₁ d₂ d₃⟩
  | _ => ⟨0, 0, 0, 0⟩

/-- The columns written out. -/
def Columns.block (s : Columns) : Block :=
  ⟨columnBytes s.c₀ ++ columnBytes s.c₁ ++ columnBytes s.c₂ ++ columnBytes s.c₃, rfl⟩

/-- The next two round keys, from the two before them and a round constant. -/
def nextKeys (s t : Columns) (constant : UInt32) : Columns × Columns :=
  let a₀ := s.c₀ ^^^ substituteColumn (rotateLeft t.c₃ 8) ^^^ constant
  let a₁ := s.c₁ ^^^ a₀
  let a₂ := s.c₂ ^^^ a₁
  let a₃ := s.c₃ ^^^ a₂
  let b₀ := t.c₀ ^^^ substituteColumn a₃
  let b₁ := t.c₁ ^^^ b₀
  let b₂ := t.c₂ ^^^ b₁
  let b₃ := t.c₃ ^^^ b₂
  (⟨a₀, a₁, a₂, a₃⟩, ⟨b₀, b₁, b₂, b₃⟩)

/-- The round keys that follow the two given ones, two for each round constant. -/
def expandKeys : List UInt32 → Columns → Columns → List Columns
  | [], _, _ => []
  | constant :: constants, s, t =>
    let (a, b) := nextKeys s t constant
    a :: b :: expandKeys constants a b

/-- The keys of the rounds, in order: one to begin with, thirteen to mix, one to end with. -/
structure Schedule where
  first : Columns
  middle : List Columns
  last : Columns

/-- The schedule of a key. -/
def Schedule.ofKey (key : Key) : Schedule :=
  let s := Columns.ofBytes (key.bytes.take 16)
  let t := Columns.ofBytes (key.bytes.drop 16)
  let keys := expandKeys
    [0x01000000, 0x02000000, 0x04000000, 0x08000000, 0x10000000, 0x20000000, 0x40000000] s t
  ⟨s, t :: keys.take 12, keys.getD 12 s⟩

/-- One block encrypted. -/
def Schedule.encrypt (k : Schedule) (block : Block) : Block :=
  let s := k.middle.foldl (fun s key => s.substituteShift.mix.xor key)
    ((Columns.ofBytes block.bytes).xor k.first)
  (s.substituteShift.xor k.last).block

/-- One block decrypted: the rounds undone in reverse order. -/
def Schedule.decrypt (k : Schedule) (block : Block) : Block :=
  let s := k.middle.foldr (fun key s => (s.xor key).unmix.unsubstituteShift)
    ((Columns.ofBytes block.bytes).xor k.last).unsubstituteShift
  (s.xor k.first).block

/-- The cipher under a key. -/
def cipher (key : Key) : BlockCipher :=
  let schedule := Schedule.ofKey key
  ⟨schedule.encrypt, schedule.decrypt⟩

end Aes256

end EndToEnd

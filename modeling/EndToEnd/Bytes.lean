/-!
# Byte strings

`Bytes` is `List UInt8`: every format of this library is a function between values and such lists,
and its laws are inductions over them. `Octets n` is a byte string whose length is part of its type,
so a key, an initialisation vector or a tag never has to be measured again.

Main statements:

- `length_littleEndian`, `length_bigEndian`: a fixed-width number takes exactly its width;
- `natLE_littleEndian`, `natBE_bigEndian`: it reads back when it fits;
- `littleEndian_natLE`: bytes are the one way to write their number in their width;
- `toText?_ofText`, `ofText_of_toText?`: bytes are read as text exactly when they encode it.
-/

namespace EndToEnd

/-- A byte string. -/
abbrev Bytes := List UInt8

namespace Bytes

/-- The number written by the bytes, least significant byte first. -/
def natLE : Bytes → Nat
  | [] => 0
  | b :: bs => b.toNat + 256 * natLE bs

/-- The number written by the bytes, most significant byte first. -/
def natBE (bs : Bytes) : Nat :=
  bs.foldl (fun n b => 256 * n + b.toNat) 0

/-- The `width` low bytes of a number, least significant first. -/
def littleEndian : (width : Nat) → Nat → Bytes
  | 0, _ => []
  | width + 1, n => n.toUInt8 :: littleEndian width (n / 256)

/-- The `width` low bytes of a number, most significant first. -/
def bigEndian (width n : Nat) : Bytes :=
  (littleEndian width n).reverse

/-- The UTF-8 encoding of a text. -/
def ofText (s : String) : Bytes := s.toUTF8.data.toList

/-- The text that the bytes encode in UTF-8, if they encode one. -/
def toText? (bs : Bytes) : Option String := String.fromUTF8? ⟨bs.toArray⟩

/-- A number is written in exactly the bytes it is given. -/
@[simp] theorem length_littleEndian (width n : Nat) : (littleEndian width n).length = width := by
  induction width generalizing n with
  | zero => rfl
  | succ width ih => simp only [littleEndian, List.length_cons, ih]

@[simp] theorem length_bigEndian (width n : Nat) : (bigEndian width n).length = width := by
  simp only [bigEndian, List.length_reverse, length_littleEndian]

/-- A number that fits is read back from its little-endian bytes. -/
theorem natLE_littleEndian {width n : Nat} (h : n < Nat.pow 256 width) :
    natLE (littleEndian width n) = n := by
  induction width generalizing n with
  | zero =>
    obtain rfl := Nat.lt_one_iff.mp h
    rfl
  | succ width ih =>
    have hdiv : n / 256 < Nat.pow 256 width := Nat.div_lt_of_lt_mul (Nat.mul_comm _ 256 ▸ h)
    have hlow : n.toUInt8.toNat = n % 256 := rfl
    simp only [littleEndian, natLE, ih hdiv, hlow]
    omega

/-- What is read of some bytes fits in that many bytes. -/
theorem natLE_lt (bs : Bytes) : natLE bs < Nat.pow 256 bs.length := by
  induction bs with
  | nil => exact Nat.one_pos
  | cons b bs ih =>
    have hbyte : b.toNat < 256 := b.toNat_lt
    have hpow : Nat.pow 256 (b :: bs).length = Nat.pow 256 bs.length * 256 := rfl
    rw [natLE, hpow]
    omega

/-- The bytes are the only ones of their width that write their number. -/
theorem littleEndian_natLE (bs : Bytes) : littleEndian bs.length (natLE bs) = bs := by
  induction bs with
  | nil => rfl
  | cons b bs ih =>
    have hbyte : b.toNat < 256 := b.toNat_lt
    have hlow : (b.toNat + 256 * natLE bs).toUInt8 = b := by
      apply UInt8.toNat_inj.mp
      show (b.toNat + 256 * natLE bs) % 256 = b.toNat
      omega
    have hhigh : (b.toNat + 256 * natLE bs) / 256 = natLE bs := by omega
    rw [List.length_cons, natLE, littleEndian, hlow, hhigh, ih]

/-- Reading most significant byte first is reading the reversed bytes the other way. -/
theorem natBE_eq_natLE_reverse (bs : Bytes) : natBE bs = natLE bs.reverse := by
  unfold natBE
  rw [List.foldl_eq_foldr_reverse]
  generalize bs.reverse = rs
  induction rs with
  | nil => rfl
  | cons b rs ih => simp only [List.foldr_cons, natLE, ih]; omega

/-- A number that fits is read back from its big-endian bytes. -/
theorem natBE_bigEndian {width n : Nat} (h : n < Nat.pow 256 width) :
    natBE (bigEndian width n) = n := by
  rw [natBE_eq_natLE_reverse, bigEndian, List.reverse_reverse, natLE_littleEndian h]

/-- A text is read back from its own bytes. -/
theorem toText?_ofText (s : String) : toText? (ofText s) = some s := by
  have hbytes : (⟨(ofText s).toArray⟩ : ByteArray) = s.toByteArray := by
    simp only [ofText, Array.toArray_toList]; rfl
  simp only [toText?, String.fromUTF8?, hbytes, s.isValidUTF8, dite_true]
  rfl

/-- Only the bytes of a text are read as that text. -/
theorem ofText_of_toText? {bs : Bytes} {s : String} (h : toText? bs = some s) : bs = ofText s := by
  unfold toText? String.fromUTF8? at h
  split at h
  next =>
    obtain rfl := Option.some.inj h
    simp only [ofText]
    rfl
  next => exact nomatch h

end Bytes

/-- A byte string of exactly `n` bytes. -/
@[ext] structure Octets (n : Nat) where
  bytes : Bytes
  length_eq : bytes.length = n
deriving DecidableEq

namespace Octets

attribute [simp] Octets.length_eq

/-- The byte string as one of `n` bytes, if it has that many. -/
def ofBytes? (n : Nat) (bs : Bytes) : Option (Octets n) :=
  if h : bs.length = n then some ⟨bs, h⟩ else none

/-- `n` times the same byte. -/
def replicate (n : Nat) (b : UInt8) : Octets n :=
  ⟨List.replicate n b, List.length_replicate⟩

/-- The low `n` bytes of a number, least significant first. -/
def ofNatLE (n value : Nat) : Octets n :=
  ⟨Bytes.littleEndian n value, Bytes.length_littleEndian n value⟩

/-- The first `m` bytes. -/
def left {m n : Nat} (o : Octets (m + n)) : Octets m :=
  ⟨o.bytes.take m, by simp⟩

/-- The last `n` bytes. -/
def right {m n : Nat} (o : Octets (m + n)) : Octets n :=
  ⟨o.bytes.drop m, by simp⟩

/-- Byte by byte exclusive or. -/
def xor {n : Nat} (x y : Octets n) : Octets n :=
  ⟨List.zipWith (· ^^^ ·) x.bytes y.bytes, by simp⟩

theorem ofBytes?_bytes {n : Nat} (o : Octets n) : ofBytes? n o.bytes = some o := by
  simp only [ofBytes?, o.length_eq, dite_true]

/-- A value of fixed length is read of its own bytes and of no others. -/
theorem ofBytes?_eq_some_iff {n : Nat} {bs : Bytes} {o : Octets n} :
    ofBytes? n bs = some o ↔ bs = o.bytes := by
  refine ⟨fun h => ?_, fun h => h ▸ ofBytes?_bytes o⟩
  unfold ofBytes? at h
  split at h
  next => exact congrArg Octets.bytes (Option.some.inj h)
  next => exact nomatch h

end Octets

/-- The size of every key of the protocol: agreement keys, root, chain and message keys. -/
abbrev Key := Octets 32

end EndToEnd

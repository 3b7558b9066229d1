import EndToEnd.Primitive.Sha256

/-!
# HMAC and HKDF

HMAC-SHA256, and key derivation over any keyed hash with 32 bytes of output. Derivation is extract,
then expand: the input is condensed to one key, which is stretched block by block, each block keyed
by that key and fed the block before it.

Main statement: `length_expand`, so a derived string has the length asked for, in its type.
-/

namespace EndToEnd

/-- A keyed hash: a key and a message to 32 bytes. -/
abbrev KeyedHash := Bytes → Bytes → Octets 32

/-- A key fitted to one block: hashed if it is longer, then filled up with zeros. -/
def hmacBlock (key : Bytes) : Bytes :=
  let fitted := if key.length ≤ 64 then key else (Sha256.hash key).bytes
  fitted ++ List.replicate (64 - fitted.length) 0

/-- HMAC-SHA256 of a message. A key of any length is accepted. -/
def hmacSha256 : KeyedHash := fun key message =>
  let block := hmacBlock key
  let inner := Sha256.hash (block.map (· ^^^ 0x36) ++ message)
  Sha256.hash (block.map (· ^^^ 0x5c) ++ inner.bytes)

namespace Hkdf

/-- The longest output that one derivation can produce: its block counter is one byte. -/
def maxLength : Nat := 255 * 32

/-- `count` output blocks, numbered from `counter`, after the block `previous`. -/
def expand (mac : KeyedHash) (key info : Bytes) :
    (count : Nat) → (counter : UInt8) → (previous : Bytes) → Bytes
  | 0, _, _ => []
  | count + 1, counter, previous =>
    let block := mac key (previous ++ info ++ [counter])
    block.bytes ++ expand mac key info count (counter + 1) block.bytes

/-- Every round of the expansion gives one hash. -/
theorem length_expand (mac : KeyedHash) (key info : Bytes) (count : Nat) (counter : UInt8)
    (previous : Bytes) : (expand mac key info count counter previous).length = 32 * count := by
  induction count generalizing counter previous with
  | zero => rfl
  | succ count ih => simp only [expand, List.length_append, Octets.length_eq, ih]; omega

/-- `n` bytes derived from key material, for a purpose named by `info`. -/
def derive (mac : KeyedHash) (salt material info : Bytes) (n : Nat) : Octets n :=
  let key := mac salt material
  let stream := expand mac key.bytes info ((n + 31) / 32) 1 []
  ⟨stream.take n, by
    simp only [stream, List.length_take, length_expand]
    omega⟩

end Hkdf

end EndToEnd

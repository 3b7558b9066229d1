import EndToEnd.Primitive.Aes256

/-!
# Cipher block chaining with PKCS #7 padding

A plaintext is filled up to whole blocks by `k` bytes of value `k`, and each block is combined with
the ciphertext block before it, the first with an initialisation vector. The mode is a function of a
`BlockCipher`, so nothing here depends on which cipher it is.

The chain of ciphertext blocks is a scan of the plaintext blocks; undoing it needs no scan, because
every block before is known.

Main statement: `length_pad`.
-/

namespace EndToEnd.Cbc

/-- A plaintext filled up to whole blocks; one that has whole blocks already gains another. -/
def pad (plaintext : Bytes) : Bytes :=
  let k := 16 - plaintext.length % 16
  plaintext ++ List.replicate k k.toUInt8

/-- The plaintext in front of a padding, if the bytes end in one. -/
def unpad (padded : Bytes) : Option Bytes := do
  let last ← padded.getLast?
  let k := last.toNat
  let kept := padded.length - k
  if 1 ≤ k ∧ k ≤ 16 ∧ padded.drop kept = List.replicate k last then some (padded.take kept)
  else none

/-- The first `count` blocks of a byte string, behind the ones already read, newest first. -/
def readBlocks : (count : Nat) → Bytes → List Block → List Block
  | 0, _, done => done.reverse
  | count + 1, bs, done =>
    match Octets.ofBytes? 16 (bs.take 16) with
    | some block => readBlocks count (bs.drop 16) (block :: done)
    | none => done.reverse

/-- The whole blocks of a byte string. -/
def blocks (bs : Bytes) : List Block :=
  readBlocks (bs.length / 16) bs []

/-- The ciphertext blocks: each encrypts a plaintext block combined with the one before. -/
def encryptBlocks (c : BlockCipher) (iv : Block) (plain : List Block) : List Block :=
  (plain.scanl (fun previous block => c.encrypt (previous.xor block)) iv).tail

/-- The plaintext blocks: each ciphertext block decrypted, combined with the one before. -/
def decryptBlocks (c : BlockCipher) (iv : Block) (cipher : List Block) : List Block :=
  List.zipWith (fun previous block => previous.xor (c.decrypt block)) (iv :: cipher) cipher

/-- A byte string encrypted. -/
def encrypt (c : BlockCipher) (iv : Block) (plaintext : Bytes) : Bytes :=
  (encryptBlocks c iv (blocks (pad plaintext))).flatMap Octets.bytes

/-- A byte string decrypted, if it is whole blocks and its last block ends in a padding. -/
def decrypt (c : BlockCipher) (iv : Block) (ciphertext : Bytes) : Option Bytes :=
  if ciphertext.length % 16 = 0 then
    unpad ((decryptBlocks c iv (blocks ciphertext)).flatMap Octets.bytes)
  else none

/-- The padding fills up the block that was begun, or adds a whole one. -/
theorem length_pad (plaintext : Bytes) :
    (pad plaintext).length = 16 * (plaintext.length / 16 + 1) := by
  simp only [pad, List.length_append, List.length_replicate]
  omega

end EndToEnd.Cbc

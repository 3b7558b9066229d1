import EndToEnd.BodyCipher

/-!
# Chaining undone

Decryption in chaining mode gives the plaintext back, for any block cipher whose decryption undoes
its encryption: a padding is found and removed, whole blocks are cut where they were joined, and
each block is freed from the one before.

Main statements:

- `Cbc.decrypt_encrypt`: the mode undone, for one cipher;
- `Suite.decryptWith_encryptWith`: the same for the keys of a suite.
-/

namespace EndToEnd

/-- Exclusive or with the same string twice changes nothing. -/
theorem Octets.xor_xor_cancel {n : Nat} (x y : Octets n) : x.xor (x.xor y) = y := by
  have hlists : ∀ {xs ys : Bytes}, xs.length = ys.length →
      List.zipWith (· ^^^ ·) xs (List.zipWith (· ^^^ ·) xs ys) = ys := by
    intro xs
    induction xs with
    | nil => intro ys h; rw [List.zipWith_nil_left, List.eq_nil_of_length_eq_zero h.symm]
    | cons a xs ih =>
      intro ys h
      cases ys with
      | nil => exact nomatch h
      | cons b ys =>
        rw [List.zipWith_cons_cons, List.zipWith_cons_cons, ih (Nat.succ.inj h),
          ← UInt8.xor_assoc, UInt8.xor_self, UInt8.zero_xor]
  exact Octets.ext (hlists (x.length_eq.trans y.length_eq.symm))

/-- A block cipher whose decryption undoes its encryption. -/
def BlockCipher.Undoes (c : BlockCipher) : Prop := ∀ block, c.decrypt (c.encrypt block) = block

namespace Cbc

/-! ## Padding -/

/-- A padding has from one to sixteen bytes. -/
theorem paddingLength_bounds (plaintext : Bytes) :
    1 ≤ 16 - plaintext.length % 16 ∧ 16 - plaintext.length % 16 ≤ 16 := by
  omega

/-- A padding of any length is found and removed. -/
theorem unpad_append_replicate (plaintext : Bytes) {k : Nat} (hpos : 1 ≤ k) (hle : k ≤ 16) :
    unpad (plaintext ++ List.replicate k k.toUInt8) = some plaintext := by
  have hlast : (plaintext ++ List.replicate k k.toUInt8).getLast? = some k.toUInt8 := by
    rw [List.getLast?_append, List.getLast?_replicate, if_neg (by omega), Option.some_or]
  have hk : k.toUInt8.toNat = k := UInt8.toNat_ofNat_of_lt' (by show k < 256; omega)
  have hkept : (plaintext ++ List.replicate k k.toUInt8).length - k = plaintext.length := by simp
  simp only [unpad, hlast, Option.bind_eq_bind, Option.bind_some, hk, hkept,
    List.drop_left' rfl, List.take_left' rfl]
  rw [if_pos ⟨hpos, hle, trivial⟩]

/-- A padding that was put on is taken off. -/
theorem unpad_pad (plaintext : Bytes) : unpad (pad plaintext) = some plaintext :=
  have ⟨hpos, hle⟩ := paddingLength_bounds plaintext
  unpad_append_replicate plaintext hpos hle

/-! ## Blocks -/

/-- Blocks in a row are read back, behind those that were read before. -/
theorem readBlocks_flatMap (bs : List Block) (done : List Block) :
    readBlocks bs.length (bs.flatMap Octets.bytes) done = done.reverse ++ bs := by
  induction bs generalizing done with
  | nil => rw [List.append_nil]; rfl
  | cons b bs ih =>
    rw [List.length_cons, List.flatMap_cons, readBlocks, List.take_left' b.length_eq,
      Octets.ofBytes?_bytes, List.drop_left' b.length_eq]
    simp only [ih, List.reverse_cons, List.append_assoc, List.cons_append, List.nil_append]

/-- Every block has sixteen bytes. -/
theorem length_flatMap_bytes (bs : List Block) :
    (bs.flatMap Octets.bytes).length = 16 * bs.length := by
  induction bs with
  | nil => rfl
  | cons b bs ih =>
    rw [List.flatMap_cons, List.length_append, b.length_eq, ih, List.length_cons]
    omega

/-- Blocks that were joined are cut apart again. -/
theorem blocks_flatMap (bs : List Block) : blocks (bs.flatMap Octets.bytes) = bs := by
  rw [blocks, length_flatMap_bytes, Nat.mul_div_cancel_left _ (by decide), readBlocks_flatMap]
  rfl

/-- Bytes that are whole blocks are lost nowhere when they are read as such. -/
theorem flatMap_readBlocks (count : Nat) (bs : Bytes) (done : List Block)
    (h : bs.length = 16 * count) :
    (readBlocks count bs done).flatMap Octets.bytes = done.reverse.flatMap Octets.bytes ++ bs := by
  induction count generalizing bs done with
  | zero => rw [readBlocks, List.eq_nil_of_length_eq_zero h, List.append_nil]
  | succ count ih =>
    have htake : (bs.take 16).length = 16 := by rw [List.length_take]; omega
    have hblock : Octets.ofBytes? 16 (bs.take 16) = some ⟨bs.take 16, htake⟩ :=
      Octets.ofBytes?_eq_some_iff.mpr rfl
    have hrest : (bs.drop 16).length = 16 * count := by rw [List.length_drop]; omega
    rw [readBlocks, hblock]
    simp only []
    rw [ih _ _ hrest, List.reverse_cons, List.flatMap_append, List.append_assoc]
    simp only [List.flatMap_cons, List.flatMap_nil, List.append_nil, List.take_append_drop]

/-- A string of whole blocks is its blocks joined. -/
theorem flatMap_blocks {bs : Bytes} (h : bs.length % 16 = 0) :
    (blocks bs).flatMap Octets.bytes = bs := by
  rw [blocks, flatMap_readBlocks _ _ _ (by omega)]
  rfl

/-! ## The chain -/

/-- The first block is mixed with the vector, and its ciphertext is the vector of the rest. -/
theorem encryptBlocks_cons (c : BlockCipher) (iv b : Block) (bs : List Block) :
    encryptBlocks c iv (b :: bs) =
      c.encrypt (iv.xor b) :: encryptBlocks c (c.encrypt (iv.xor b)) bs := by
  simp only [encryptBlocks, List.scanl_cons, List.tail_cons]
  cases bs with
  | nil => rfl
  | cons b' bs => rw [List.scanl_cons, List.tail_cons]

/-- Every block becomes one. -/
theorem length_encryptBlocks (c : BlockCipher) (iv : Block) (bs : List Block) :
    (encryptBlocks c iv bs).length = bs.length := by
  simp only [encryptBlocks, List.length_tail, List.length_scanl, Nat.add_sub_cancel]

/-- Every block of ciphertext needs only the one before it to be undone. -/
theorem decryptBlocks_encryptBlocks {c : BlockCipher} (h : c.Undoes) (iv : Block)
    (bs : List Block) : decryptBlocks c iv (encryptBlocks c iv bs) = bs := by
  induction bs generalizing iv with
  | nil => rfl
  | cons b bs ih =>
    have hrest := ih (c.encrypt (iv.xor b))
    rw [decryptBlocks] at hrest
    rw [encryptBlocks_cons, decryptBlocks, List.zipWith_cons_cons, h, Octets.xor_xor_cancel, hrest]

/-- A ciphertext is as long as the padded plaintext. -/
theorem length_encrypt (c : BlockCipher) (iv : Block) (plaintext : Bytes) :
    (encrypt c iv plaintext).length = 16 * (plaintext.length / 16 + 1) := by
  have hpad := length_pad plaintext
  have hwhole : (pad plaintext).length % 16 = 0 := by omega
  have hblocks := congrArg List.length (flatMap_blocks hwhole)
  rw [length_flatMap_bytes] at hblocks
  rw [encrypt, length_flatMap_bytes, length_encryptBlocks, hblocks, hpad]

/-- The mode undone, with the cipher undone. -/
theorem decrypt_encrypt {c : BlockCipher} (h : c.Undoes) (iv : Block) (plaintext : Bytes) :
    decrypt c iv (encrypt c iv plaintext) = some plaintext := by
  have hwhole : (encrypt c iv plaintext).length % 16 = 0 := by rw [length_encrypt]; omega
  have hpad : (pad plaintext).length % 16 = 0 := by rw [length_pad]; omega
  rw [decrypt, if_pos hwhole, encrypt, blocks_flatMap, decryptBlocks_encryptBlocks h,
    flatMap_blocks hpad, unpad_pad]

end Cbc

/-- A suite whose block cipher undoes its encryption under every key. -/
def Suite.CipherUndoes (S : Suite) : Prop := ∀ key, (S.cipher key).Undoes

namespace Suite

variable {S : Suite}

theorem length_encryptWith (S : Suite) (key : Key) (iv : Block) (plaintext : Bytes) :
    (S.encryptWith key iv plaintext).length = 16 * (plaintext.length / 16 + 1) :=
  Cbc.length_encrypt _ _ _

/-- Under a cipher that undoes its encryption, every plaintext is read back. -/
theorem decryptWith_encryptWith (h : S.CipherUndoes) (key : Key) (iv : Block) (plaintext : Bytes) :
    S.decryptWith key iv (S.encryptWith key iv plaintext) = .ok plaintext := by
  rw [decryptWith, encryptWith, Cbc.decrypt_encrypt (h key)]

/-- Keys and initialisation vectors of the right lengths are taken as they are. -/
theorem cipherInputs_bytes (key : Key) (iv : Block) :
    cipherInputs key.bytes iv.bytes = .ok (key, iv) := by
  simp only [cipherInputs, Octets.ofBytes?_bytes]

/-- Keys and vectors of the right lengths are not refused. -/
theorem encrypt_bytes (S : Suite) (key : Key) (iv : Block) (plaintext : Bytes) :
    S.encrypt key.bytes iv.bytes plaintext = .ok (S.encryptWith key iv plaintext) := by
  rw [encrypt, cipherInputs_bytes]
  rfl

theorem decrypt_bytes (S : Suite) (key : Key) (iv : Block) (ciphertext : Bytes) :
    S.decrypt key.bytes iv.bytes ciphertext = S.decryptWith key iv ciphertext := by
  rw [decrypt, cipherInputs_bytes]
  rfl

end Suite

end EndToEnd

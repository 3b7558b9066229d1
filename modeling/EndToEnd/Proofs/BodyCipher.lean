import EndToEnd.Proofs.Primitive.Aes256

/-!
# What the body cipher accepts

Decryption accepts nothing but what encryption gives: a ciphertext that opens to a plaintext is the
one ciphertext of that plaintext. A block cipher that undoes its encryption is undone by it too,
since there are finitely many blocks; so a chain of ciphertext blocks is the encryption of what it
decrypts to. And bytes that end in a padding, if they are whole blocks, end in the very padding that
their front is filled up with.

Main statements:

- `Cbc.unpad_eq_some_iff`: what is taken for a padding;
- `Cbc.decrypt_eq_some_iff`: the mode, one cipher given;
- `Suite.body_cipher_exact`: the same for keys and initialisation vectors as bytes.
-/

namespace EndToEnd

variable {c : BlockCipher} {iv : Block} {padded plaintext ciphertext : Bytes}

instance (n : Nat) : Finite (Octets n) := by
  let vector (o : Octets n) : List.Vector UInt8 n := ⟨o.bytes, o.length_eq⟩
  have hvector : Function.Injective vector := fun _ _ h => Octets.ext (congrArg Subtype.val h)
  exact Finite.of_injective vector hvector

/-- Blocks are finitely many, so a cipher that is undone on all of them gives all of them. -/
theorem BlockCipher.Undoes.encrypt_decrypt (h : c.Undoes) (block : Block) :
    c.encrypt (c.decrypt block) = block :=
  have hundoes : Function.LeftInverse c.decrypt c.encrypt := h
  hundoes.rightInverse_of_surjective (Finite.surjective_of_injective hundoes.injective) block

namespace Cbc

/-! ## Paddings -/

/-- The bytes end in `k` bytes of value `k`, for a `k` from one to sixteen. -/
def EndsPadded (bs : Bytes) : Prop :=
  ∃ k, 1 ≤ k ∧ k ≤ 16 ∧ List.replicate k k.toUInt8 <:+ bs

/-- A padding is `k` bytes of value `k`, and all that is in front of it is kept. -/
theorem unpad_eq_some_iff : unpad padded = some plaintext ↔
    ∃ k, 1 ≤ k ∧ k ≤ 16 ∧ padded = plaintext ++ List.replicate k k.toUInt8 := by
  constructor
  · intro h
    obtain ⟨last, -, hlast⟩ := Option.bind_eq_some_iff.mp h
    obtain ⟨⟨hpos, hle, hdrop⟩, hkept⟩ := Option.ite_none_right_eq_some.mp hlast
    refine ⟨last.toNat, hpos, hle, ?_⟩
    rw [show last.toNat.toUInt8 = last from UInt8.ofNat_toNat, ← hdrop, ← Option.some.inj hkept,
      List.take_append_drop]
  · rintro ⟨k, hpos, hle, rfl⟩
    exact unpad_append_replicate plaintext hpos hle

/-- The test on the last bytes says exactly whether the padding can be taken off. -/
theorem endsPadded_iff : EndsPadded padded ↔ ∃ plaintext, unpad padded = some plaintext := by
  constructor
  · rintro ⟨k, hpos, hle, plaintext, hpadded⟩
    exact ⟨plaintext, unpad_eq_some_iff.mpr ⟨k, hpos, hle, hpadded.symm⟩⟩
  · rintro ⟨plaintext, h⟩
    obtain ⟨k, hpos, hle, hpadded⟩ := unpad_eq_some_iff.mp h
    exact ⟨k, hpos, hle, plaintext, hpadded.symm⟩

instance (bs : Bytes) : Decidable (EndsPadded bs) :=
  decidable_of_iff (unpad bs).isSome (Option.isSome_iff_exists.trans endsPadded_iff.symm)

/-- Whole blocks with a padding at their end are the front of them filled up. -/
theorem unpad_eq_some_iff_pad (h : padded.length % 16 = 0) :
    unpad padded = some plaintext ↔ padded = pad plaintext := by
  constructor
  · intro hunpad
    obtain ⟨k, hpos, hle, rfl⟩ := unpad_eq_some_iff.mp hunpad
    -- of the lengths from one to sixteen only one makes whole blocks
    rw [List.length_append, List.length_replicate] at h
    have hk : 16 - plaintext.length % 16 = k := by omega
    simp only [pad, hk]
  · rintro rfl
    exact unpad_pad plaintext

/-! ## The chain backwards -/

theorem decryptBlocks_cons (c : BlockCipher) (iv b : Block) (bs : List Block) :
    decryptBlocks c iv (b :: bs) = iv.xor (c.decrypt b) :: decryptBlocks c b bs := rfl

/-- A chain of ciphertext blocks is what its plaintext blocks are encrypted to. -/
theorem encryptBlocks_decryptBlocks (h : c.Undoes) (iv : Block) (bs : List Block) :
    encryptBlocks c iv (decryptBlocks c iv bs) = bs := by
  -- the ciphertext block before is what either direction goes on from
  induction bs generalizing iv with
  | nil => rfl
  | cons b bs ih =>
    rw [decryptBlocks_cons, encryptBlocks_cons, Octets.xor_xor_cancel, h.encrypt_decrypt, ih]

/-- What a ciphertext opens to, the padding included. -/
def opened (c : BlockCipher) (iv : Block) (ciphertext : Bytes) : Bytes :=
  (decryptBlocks c iv (blocks ciphertext)).flatMap Octets.bytes

/-- Opening whole blocks gives as many bytes as there were. -/
theorem length_opened (h : ciphertext.length % 16 = 0) :
    (opened c iv ciphertext).length = ciphertext.length := by
  have hblocks := congrArg List.length (flatMap_blocks h)
  rw [length_flatMap_bytes] at hblocks
  rw [opened, length_flatMap_bytes, decryptBlocks, List.length_zipWith, List.length_cons,
    Nat.min_eq_right (Nat.le_succ _), hblocks]

/-- A ciphertext that opens to a padded plaintext is its ciphertext. -/
theorem encrypt_of_opened (h : c.Undoes) (hwhole : ciphertext.length % 16 = 0)
    (hopened : opened c iv ciphertext = pad plaintext) : encrypt c iv plaintext = ciphertext := by
  rw [encrypt, ← hopened, opened, blocks_flatMap, encryptBlocks_decryptBlocks h,
    flatMap_blocks hwhole]

/-- A plaintext is read of its ciphertext and of nothing else. -/
theorem decrypt_eq_some_iff (h : c.Undoes) :
    decrypt c iv ciphertext = some plaintext ↔ encrypt c iv plaintext = ciphertext := by
  constructor
  · intro hdecrypt
    obtain ⟨hwhole, hunpad⟩ := Option.ite_none_right_eq_some.mp hdecrypt
    have hpadded : (opened c iv ciphertext).length % 16 = 0 := by rwa [length_opened hwhole]
    exact encrypt_of_opened h hwhole ((unpad_eq_some_iff_pad hpadded).mp hunpad)
  · rintro rfl
    exact decrypt_encrypt h iv plaintext

/-- A ciphertext is read exactly if it is whole blocks that open to bytes with a padding. -/
theorem exists_decrypt_iff : (∃ plaintext, decrypt c iv ciphertext = some plaintext) ↔
    ciphertext.length % 16 = 0 ∧ EndsPadded (opened c iv ciphertext) := by
  simp only [decrypt, Option.ite_none_right_eq_some, exists_and_left, endsPadded_iff, opened]

theorem not_endsPadded_nil : ¬ EndsPadded [] := by
  decide

end Cbc

/-! ## Keys and initialisation vectors as bytes -/

namespace Suite

variable {S : Suite} {key : Key}

/-- A key or a vector of the wrong length is refused, and the refusal names both lengths. -/
theorem cipherInputs_of_length_ne {key iv : Bytes} (h : ¬(key.length = 32 ∧ iv.length = 16)) :
    cipherInputs key iv = .error (.cipherLengths key.length iv.length) := by
  unfold cipherInputs
  split
  next key' iv' hkey hiv =>
    rw [Octets.ofBytes?_eq_some_iff.mp hkey, Octets.ofBytes?_eq_some_iff.mp hiv] at h
    exact absurd ⟨key'.length_eq, iv'.length_eq⟩ h
  next => rfl

/-- A ciphertext is read, or refused as not ending in a padding. -/
theorem decryptWith_cases (S : Suite) (key : Key) (iv : Block) (ciphertext : Bytes) :
    (∃ plaintext, Cbc.decrypt (S.cipher key) iv ciphertext = some plaintext ∧
      S.decryptWith key iv ciphertext = .ok plaintext) ∨
    (Cbc.decrypt (S.cipher key) iv ciphertext = none ∧
      S.decryptWith key iv ciphertext = .error .padding) := by
  unfold decryptWith
  cases Cbc.decrypt (S.cipher key) iv ciphertext with
  | none => exact .inr ⟨rfl, rfl⟩
  | some plaintext => exact .inl ⟨plaintext, rfl, rfl⟩

/-- Decryption gives a plaintext exactly for what its encryption writes, lengths included. -/
theorem decryptWith_eq_ok_iff (h : S.CipherUndoes) :
    S.decryptWith key iv ciphertext = .ok plaintext ↔
      S.encryptWith key iv plaintext = ciphertext := by
  rw [encryptWith, ← Cbc.decrypt_eq_some_iff (h key)]
  rcases S.decryptWith_cases key iv ciphertext with ⟨read, hread, hwith⟩ | ⟨hread, hwith⟩
  · rw [hread, hwith, Except.ok.injEq, Option.some.injEq]
  · simp only [hread, hwith, reduceCtorEq]

/-- The ciphertext is whole blocks, one at least, and opens to bytes with a padding at their end. -/
structure Accepts (S : Suite) (key : Key) (iv : Block) (ciphertext : Bytes) : Prop where
  ne_nil : ciphertext ≠ []
  whole : ciphertext.length % 16 = 0
  padded : Cbc.EndsPadded (Cbc.opened (S.cipher key) iv ciphertext)

/-- What is accepted is what is read: no bytes at all open to none, which end in no padding. -/
theorem accepts_iff : S.Accepts key iv ciphertext ↔
    ∃ plaintext, Cbc.decrypt (S.cipher key) iv ciphertext = some plaintext := by
  rw [Cbc.exists_decrypt_iff]
  constructor
  · rintro ⟨-, hwhole, hpadded⟩
    exact ⟨hwhole, hpadded⟩
  · rintro ⟨hwhole, hpadded⟩
    refine ⟨?_, hwhole, hpadded⟩
    rintro rfl
    exact Cbc.not_endsPadded_nil hpadded

/-- With a key and an initialisation vector of the right lengths, encryption succeeds, with one
block more than the plaintext has whole ones, and decryption gives a plaintext exactly of the
ciphertext that it is encrypted to. It gives one of every ciphertext that is whole blocks, one at
least, and opens to bytes with a padding, and refuses every other one for its padding. Other lengths
are refused, in either direction. -/
theorem body_cipher_exact (h : S.CipherUndoes) :
    (∀ (key : Key) (iv : Block),
      (∀ plaintext ciphertext, S.decrypt key.bytes iv.bytes ciphertext = .ok plaintext ↔
        S.encrypt key.bytes iv.bytes plaintext = .ok ciphertext) ∧
      (∀ plaintext, ∃ ciphertext, S.encrypt key.bytes iv.bytes plaintext = .ok ciphertext ∧
        ciphertext ≠ [] ∧ ciphertext.length = 16 * (plaintext.length / 16 + 1)) ∧
      ∀ ciphertext,
        (S.Accepts key iv ciphertext →
          ∃ plaintext, S.decrypt key.bytes iv.bytes ciphertext = .ok plaintext) ∧
        (¬ S.Accepts key iv ciphertext →
          S.decrypt key.bytes iv.bytes ciphertext = .error .padding)) ∧
    ∀ key iv : Bytes, ¬(key.length = 32 ∧ iv.length = 16) → ∀ bs,
      S.encrypt key iv bs = .error (.cipherLengths key.length iv.length) ∧
        S.decrypt key iv bs = .error (.cipherLengths key.length iv.length) := by
  refine ⟨fun key iv => ⟨?_, ?_, ?_⟩, ?_⟩
  · intro plaintext ciphertext
    rw [decrypt_bytes, encrypt_bytes, decryptWith_eq_ok_iff h, Except.ok.injEq]
  · intro plaintext
    have hlength := S.length_encryptWith key iv plaintext
    refine ⟨_, S.encrypt_bytes key iv plaintext, fun hempty => ?_, hlength⟩
    rw [hempty, List.length_nil] at hlength
    omega
  · intro ciphertext
    rw [decrypt_bytes, accepts_iff]
    rcases S.decryptWith_cases key iv ciphertext with ⟨plaintext, hread, hwith⟩ | ⟨hread, hwith⟩
    · exact ⟨fun _ => ⟨plaintext, hwith⟩, fun hrefused => absurd ⟨plaintext, hread⟩ hrefused⟩
    · exact ⟨fun ⟨_, hsome⟩ => (nomatch hread.symm.trans hsome), fun _ => hwith⟩
  · intro key iv hlengths bs
    rw [encrypt, decrypt, cipherInputs_of_length_ne hlengths]
    exact ⟨rfl, rfl⟩

/-- One block under AES-256, and the block of padding behind it. The first block alone opens to
bytes that end in no padding. -/
theorem body_cipher_exact_block :
    let key : Key :=
      ⟨Bytes.bigEndian 32 0x603deb1015ca71be2b73aef0857d77811f352c073b6108d72d9810a30914dff4,
        Bytes.length_bigEndian _ _⟩
    let iv : Block :=
      ⟨Bytes.bigEndian 16 0x000102030405060708090a0b0c0d0e0f, Bytes.length_bigEndian _ _⟩
    let plaintext := Bytes.bigEndian 16 0x6bc1bee22e409f96e93d7e117393172a
    let block := Bytes.bigEndian 16 0xf58c4c04d6e5f1ba779eabfb5f7bfbd6
    let padding := Bytes.bigEndian 16 0x485a5c81519cf378fa36d42b8547edc0
    standard.CipherUndoes ∧
      standard.decrypt key.bytes iv.bytes (block ++ padding) = .ok plaintext ∧
      standard.Accepts key iv (block ++ padding) ∧
      standard.decrypt key.bytes iv.bytes block = .error .padding ∧
      standard.decrypt key.bytes iv.bytes [] = .error .padding ∧
      standard.decrypt (key.bytes.take 31) iv.bytes block = .error (.cipherLengths 31 16) := by
  intro key iv plaintext block padding
  have hexact := body_cipher_exact standard_cipherUndoes
  obtain ⟨hiff, -, haccepts⟩ := hexact.1 key iv
  have hread : standard.decrypt key.bytes iv.bytes (block ++ padding) = .ok plaintext :=
    (hiff _ _).mpr (by decide +kernel)
  refine ⟨standard_cipherUndoes, hread, ?_, (haccepts _).2 ?_,
    (haccepts _).2 fun h => h.ne_nil rfl, (hexact.2 _ _ (by decide) _).2⟩
  · by_contra hno
    cases hread.symm.trans ((haccepts _).2 hno)
  · intro h
    exact absurd h.padded (by decide +kernel)

end Suite

end EndToEnd

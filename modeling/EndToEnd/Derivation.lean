import EndToEnd.BodyCipher

/-!
# Derived keys

Every key of a conversation comes out of three derivations. A root step turns a secret into the next
root key and the first key of a chain. A chain key yields a message key and the next chain key. A
message key is expanded to a cipher key, an authentication key and an initialisation vector for one
message.

The position `i` of a chain is `chainKeyAt S k i`, so a sender and a receiver that hold the same
first key agree on every later one.
-/

namespace EndToEnd

/-- Key material of a length that is not known beforehand, if one derivation can produce it. -/
def Suite.deriveBytes (S : Suite) (salt material info : Bytes) (length : Nat) :
    Except CryptoError Bytes :=
  if length ≤ Hkdf.maxLength then .ok (S.derive salt material info length).bytes
  else .error (.outputLength length)

/-- A root key and the first key of the chain that it opens. -/
structure RootStep where
  root : Key
  chain : Key
deriving DecidableEq

namespace RootStep

/-- A derived string of 64 bytes cut in two. -/
def ofOctets (o : Octets (32 + 32)) : RootStep := ⟨o.left, o.right⟩

/-- The first root key of a conversation, from the secret of its handshake. -/
def ofSecret (S : Suite) (secret : Bytes) : RootStep :=
  ofOctets (S.derive (List.replicate 64 0) secret (Bytes.ofText "OLM_ROOT") (32 + 32))

/-- The next root key, from the one before and a fresh agreement. -/
def next (S : Suite) (root shared : Key) : RootStep :=
  ofOctets (S.derive root.bytes shared.bytes (Bytes.ofText "OLM_RATCHET") (32 + 32))

end RootStep

/-- The message key at the current position of a chain. -/
def messageKey (S : Suite) (chain : Key) : Key := S.mac chain.bytes [1]

/-- The chain key at the next position. -/
def nextChainKey (S : Suite) (chain : Key) : Key := S.mac chain.bytes [2]

/-- The chain key at a position of the chain that starts with a key. -/
def chainKeyAt (S : Suite) (chain : Key) : (position : Nat) → Key
  | 0 => chain
  | position + 1 => chainKeyAt S (nextChainKey S chain) position

/-- The message key at a position of the chain that starts with a key. -/
def messageKeyAt (S : Suite) (chain : Key) (position : Nat) : Key :=
  messageKey S (chainKeyAt S chain position)

/-- A chain goes on from any of its positions. -/
theorem chainKeyAt_add (S : Suite) (chain : Key) (i j : Nat) :
    chainKeyAt S chain (i + j) = chainKeyAt S (chainKeyAt S chain i) j := by
  induction i generalizing chain with
  | zero => rw [Nat.zero_add, chainKeyAt]
  | succ i ih => rw [Nat.succ_add, chainKeyAt, ih, chainKeyAt]

/-- The next chain key is derived from the one before it. -/
theorem chainKeyAt_succ (S : Suite) (chain : Key) (i : Nat) :
    chainKeyAt S chain (i + 1) = nextChainKey S (chainKeyAt S chain i) := by
  rw [chainKeyAt_add, chainKeyAt, chainKeyAt]

/-- The authenticator of a message. -/
abbrev Mac := Octets 8

/-- What one message is encrypted and authenticated with. -/
structure MessageKeys where
  cipherKey : Key
  macKey : Key
  iv : Block
deriving DecidableEq

namespace MessageKeys

/-- A message key expanded. -/
def ofKey (S : Suite) (key : Key) : MessageKeys :=
  let stream : Octets (32 + (32 + 16)) :=
    S.derive (List.replicate 80 0) key.bytes (Bytes.ofText "OLM_KEYS") (32 + (32 + 16))
  ⟨stream.left, stream.right.left, stream.right.right⟩

/-- A message body encrypted. -/
def encrypt (S : Suite) (keys : MessageKeys) (plaintext : Bytes) : Bytes :=
  S.encryptWith keys.cipherKey keys.iv plaintext

/-- A message body decrypted. -/
def decrypt (S : Suite) (keys : MessageKeys) (ciphertext : Bytes) : Except CryptoError Bytes :=
  S.decryptWith keys.cipherKey keys.iv ciphertext

/-- The authenticator of the bytes of a message: the front of the keyed hash. -/
def mac (S : Suite) (keys : MessageKeys) (message : Bytes) : Mac :=
  Octets.left (m := 8) (n := 24) (S.mac keys.macKey.bytes message)

/-- Whether an authenticator is that of the bytes of a message. -/
def verifies (S : Suite) (keys : MessageKeys) (message mac : Bytes) : Bool :=
  (keys.mac S message).bytes == mac

end MessageKeys

end EndToEnd

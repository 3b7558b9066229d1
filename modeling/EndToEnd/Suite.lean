import EndToEnd.Primitive.Cbc
import EndToEnd.Primitive.ChaCha20
import EndToEnd.Primitive.Curve25519
import EndToEnd.Primitive.Hmac

/-!
# Cipher suites

A suite is what the protocol is built on: an agreement function, a keyed hash, and a block cipher.
Every layer above takes a suite and calls nothing else, so a law of the protocol that rests on a
property of the primitives says so as a hypothesis on the suite.

`Suite.standard` is the suite of the protocol: X25519, HMAC-SHA256 and AES-256.
-/

namespace EndToEnd

/-- The primitives of the protocol. -/
structure Suite where
  /-- The public half of a private key. -/
  publicKey : Key → Key
  /-- What a private key shares with a public one; nothing, if the public key adds nothing to it. -/
  sharedSecret : (secret their : Key) → Option Key
  /-- The keyed hash behind every derivation and every tag. -/
  mac : KeyedHash
  /-- The block cipher, under each key. -/
  cipher : Key → BlockCipher

namespace Suite

/-- X25519, HMAC-SHA256 and AES-256. -/
def standard : Suite where
  publicKey := Curve25519.publicKey
  sharedSecret := Curve25519.sharedSecret
  mac := hmacSha256
  cipher := Aes256.cipher

/-- Key material derived for a purpose. -/
def derive (S : Suite) (salt material info : Bytes) (n : Nat) : Octets n :=
  Hkdf.derive S.mac salt material info n

end Suite

end EndToEnd

import EndToEnd.CryptoError
import EndToEnd.Suite

/-!
# Key pairs and agreement

A key pair is a public key, with its private half if it is ours. Key material from a peer has no
private half and takes part in agreements as the other side only.
-/

namespace EndToEnd

/-- A public key and, for a pair of our own, the private key behind it. -/
structure KeyPair where
  publicKey : Key
  privateKey : Option Key
deriving DecidableEq

/-- Bytes as a key of the given half. -/
def Key.parse (half : KeyHalf) (bytes : Bytes) : Except CryptoError Key :=
  match Octets.ofBytes? 32 bytes with
  | some key => .ok key
  | none => .error (.keyLength half bytes.length)

/-- The agreement of two keys given as bytes. -/
def agree (S : Suite) (their secret : Bytes) : Except CryptoError Key := do
  let their ← Key.parse .publicHalf their
  let secret ← Key.parse .privateHalf secret
  match S.sharedSecret secret their with
  | some shared => .ok shared
  | none => .error .nonContributory

namespace KeyPair

/-- The pair of a private key. -/
def ofPrivate (S : Suite) (secret : Key) : KeyPair :=
  ⟨S.publicKey secret, some secret⟩

/-- A pair of which only the public half is known. -/
def ofPublic (key : Key) : KeyPair := ⟨key, none⟩

/-- A pair of which only the public half is known, from untrusted bytes. -/
def ofPublicBytes (bytes : Bytes) : Except CryptoError KeyPair :=
  (Key.parse .publicHalf bytes).map ofPublic

/-- The pair without its private half. -/
def toPublic (pair : KeyPair) : KeyPair := ofPublic pair.publicKey

/-- Whether the private half is known. -/
def hasPrivate (pair : KeyPair) : Bool := pair.privateKey.isSome

/-- The agreement of our pair with a public key from a peer. -/
def agree (S : Suite) (pair : KeyPair) (their : Bytes) : Except CryptoError Key :=
  match pair.privateKey with
  | some secret => EndToEnd.agree S their secret.bytes
  | none => .error .noPrivateHalf

end KeyPair

end EndToEnd

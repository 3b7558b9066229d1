import EndToEnd.Bytes

/-!
# Refusals of the cryptographic layer

One constructor per cause. `message` is the only place that words them.
-/

namespace EndToEnd

/-- The two halves of a key pair. -/
inductive KeyHalf
  | publicHalf
  | privateHalf
deriving DecidableEq

/-- Why a key, a derivation or a ciphertext was refused. -/
inductive CryptoError
  /-- A half of a key pair has the wrong length. -/
  | keyLength (half : KeyHalf) (length : Nat)
  /-- An agreement was asked of a pair that holds its public half only. -/
  | noPrivateHalf
  /-- The public key is a point of low order. -/
  | nonContributory
  /-- The key or the initialisation vector of the body cipher has the wrong length. -/
  | cipherLengths (key iv : Nat)
  /-- The ciphertext is not whole blocks, or its last block ends in no padding. -/
  | padding
  /-- A derivation was asked for more than it can produce. -/
  | outputLength (length : Nat)
deriving DecidableEq

namespace CryptoError

/-- The length of either half of a key pair. -/
def keySize : Nat := 32

/-- What the half of a key pair is called. -/
def halfName : KeyHalf → String
  | .publicHalf => "public key"
  | .privateHalf => "private key"

/-- The text of a refusal. -/
def message : CryptoError → String
  | .keyLength half length =>
    s!"invalid key: {halfName half}: expected {keySize} bytes, got {length}"
  | .noPrivateHalf => "invalid key: key pair has no private half"
  | .nonContributory => "invalid key: non-contributory public key"
  | .cipherLengths key iv =>
    s!"invalid key: AES-256-CBC needs a 32-byte key and 16-byte IV, got {key} and {iv}"
  | .padding => "invalid padding"
  | .outputLength length => s!"invalid HKDF output length: {length}"

/-- Whether the refusal means misuse. An invalid key is the fault of the message it came in. -/
def isFatal : CryptoError → Bool
  | .padding | .outputLength _ => true
  | _ => false

end CryptoError

end EndToEnd

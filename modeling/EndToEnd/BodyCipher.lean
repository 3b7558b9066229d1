import EndToEnd.CryptoError
import EndToEnd.Suite

/-!
# The body cipher

The suite's block cipher in chaining mode with padding, for keys and initialisation vectors given as
bytes: their lengths are checked before anything else.
-/

namespace EndToEnd.Suite

/-- A plaintext under a key and an initialisation vector of the right lengths. -/
def encryptWith (S : Suite) (key : Key) (iv : Block) (plaintext : Bytes) : Bytes :=
  Cbc.encrypt (S.cipher key) iv plaintext

/-- A ciphertext under a key and an initialisation vector of the right lengths. -/
def decryptWith (S : Suite) (key : Key) (iv : Block) (ciphertext : Bytes) :
    Except CryptoError Bytes :=
  match Cbc.decrypt (S.cipher key) iv ciphertext with
  | some plaintext => .ok plaintext
  | none => .error .padding

/-- A key and an initialisation vector, if both have the right length. -/
def cipherInputs (key iv : Bytes) : Except CryptoError (Key × Block) :=
  match Octets.ofBytes? 32 key, Octets.ofBytes? 16 iv with
  | some key, some iv => .ok (key, iv)
  | _, _ => .error (.cipherLengths key.length iv.length)

/-- A plaintext encrypted. -/
def encrypt (S : Suite) (key iv plaintext : Bytes) : Except CryptoError Bytes := do
  let (key, iv) ← cipherInputs key iv
  return S.encryptWith key iv plaintext

/-- A ciphertext decrypted. -/
def decrypt (S : Suite) (key iv ciphertext : Bytes) : Except CryptoError Bytes := do
  let (key, iv) ← cipherInputs key iv
  S.decryptWith key iv ciphertext

end EndToEnd.Suite

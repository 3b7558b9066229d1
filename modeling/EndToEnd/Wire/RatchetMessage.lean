import EndToEnd.Derivation
import EndToEnd.Wire.Field

/-!
# Ratchet messages

A ratchet message names a chain by the sender's ratchet key and a position of it, and carries the
ciphertext made with the message key there. On the wire an authenticator of eight bytes follows it,
which covers all of its bytes and is no part of the format.

Main statement: `RatchetMessage.length_of_encode`, the encoded length is known without encoding.
-/

namespace EndToEnd.Wire

/-- A message of a chain. -/
structure RatchetMessage where
  version : UInt8
  ratchetKey : Bytes
  chainIndex : UInt32
  ciphertext : Bytes
deriving DecidableEq

namespace RatchetMessage

/-- The tag of the ratchet key. -/
def ratchetKeyTag : UInt8 := 0x0a
/-- The tag of the position. -/
def chainIndexTag : UInt8 := 0x10
/-- The tag of the ciphertext. -/
def ciphertextTag : UInt8 := 0x22

/-- A message of the current version. -/
def current (ratchetKey : Bytes) (chainIndex : UInt32) (ciphertext : Bytes) : RatchetMessage :=
  ⟨currentVersion, ratchetKey, chainIndex, ciphertext⟩

/-- How many bytes a message takes. -/
def encodedLength (m : RatchetMessage) : Nat := 16 + m.ratchetKey.length + m.ciphertext.length

/-- A message written, its version as it is. -/
def encode (m : RatchetMessage) : Except Error Bytes := do
  let ratchetKey ← writeString .ratchetKey m.ratchetKey
  let ciphertext ← writeString .ciphertext m.ciphertext
  return m.version :: (ratchetKeyTag :: ratchetKey ++
    (chainIndexTag :: writeWord m.chainIndex ++ (ciphertextTag :: ciphertext)))

/-- The message that the bytes are. -/
def decode (bs : Bytes) : Except Error RatchetMessage := do
  let (version, bs) ← readVersion bs
  let bs ← readTag .ratchetKey ratchetKeyTag bs
  let (ratchetKey, bs) ← readString .ratchetKey bs
  let bs ← readTag .chainIndex chainIndexTag bs
  let (chainIndex, bs) ← readWord .chainIndex bs
  let bs ← readTag .ciphertext ciphertextTag bs
  let (ciphertext, bs) ← readString .ciphertext bs
  readEnd bs
  return ⟨version, ratchetKey, chainIndex, ciphertext⟩

end RatchetMessage

/-- The length of an authenticator. -/
def macLength : Nat := 8

/-- A payload cut into the bytes of a message and the authenticator behind them. -/
def splitMac (payload : Bytes) : Except Error (Bytes × Mac) :=
  let bodyLength := payload.length - macLength
  match Octets.ofBytes? 8 (payload.drop bodyLength) with
  | some mac => .ok (payload.take bodyLength, mac)
  | none => .error (.missingMac payload.length)

/-- A string is written with four bytes for its length. -/
theorem length_writeString {part : Part} {content bs : Bytes}
    (h : writeString part content = .ok bs) : bs.length = 4 + content.length := by
  unfold writeString at h
  split at h
  next =>
    obtain rfl := Except.ok.inj h
    simp only [List.length_append, Bytes.length_littleEndian]
  next => exact nomatch h

/-- The length of a message is known before it is written. -/
theorem RatchetMessage.length_of_encode {m : RatchetMessage} {bs : Bytes}
    (h : m.encode = .ok bs) : bs.length = m.encodedLength := by
  unfold encode at h
  cases hk : writeString .ratchetKey m.ratchetKey with
  | error e => rw [hk] at h; exact nomatch h
  | ok key =>
    cases hc : writeString .ciphertext m.ciphertext with
    | error e => rw [hk, hc] at h; exact nomatch h
    | ok ciphertext =>
      rw [hk, hc] at h
      obtain rfl := Except.ok.inj h
      simp only [List.length_cons, List.length_append, length_writeString hk,
        length_writeString hc, writeWord, Bytes.length_littleEndian, encodedLength]
      omega

end EndToEnd.Wire

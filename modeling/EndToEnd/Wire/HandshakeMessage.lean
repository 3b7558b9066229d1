import EndToEnd.Wire.RatchetMessage

/-!
# Handshake messages

Until its peer has answered, a device wraps each ratchet message into a handshake message. It names
the one-time key of the peer that the handshake used, and carries the sender's two public keys, so
the peer can compute the secret and open the message inside in one step.
-/

namespace EndToEnd.Wire

/-- A ratchet message with its authenticator, and what its receiver needs for the handshake. -/
structure HandshakeMessage where
  version : UInt8
  oneTimeKey : Bytes
  baseKey : Bytes
  identityKey : Bytes
  message : Bytes
deriving DecidableEq

namespace HandshakeMessage

/-- The tag of the one-time key. -/
def oneTimeKeyTag : UInt8 := 0x0a
/-- The tag of the base key. -/
def baseKeyTag : UInt8 := 0x12
/-- The tag of the identity key. -/
def identityKeyTag : UInt8 := 0x1a
/-- The tag of the message inside. -/
def messageTag : UInt8 := 0x22

/-- A message of the current version. -/
def current (oneTimeKey baseKey identityKey message : Bytes) : HandshakeMessage :=
  ⟨currentVersion, oneTimeKey, baseKey, identityKey, message⟩

/-- How many bytes a message takes. -/
def encodedLength (m : HandshakeMessage) : Nat :=
  21 + m.oneTimeKey.length + m.baseKey.length + m.identityKey.length + m.message.length

/-- A message written, its version as it is. -/
def encode (m : HandshakeMessage) : Except Error Bytes := do
  let oneTimeKey ← writeString .oneTimeKey m.oneTimeKey
  let baseKey ← writeString .baseKey m.baseKey
  let identityKey ← writeString .identityKey m.identityKey
  let message ← writeString .message m.message
  return m.version :: (oneTimeKeyTag :: oneTimeKey ++ (baseKeyTag :: baseKey ++
    (identityKeyTag :: identityKey ++ (messageTag :: message))))

/-- The message that the bytes are. -/
def decode (bs : Bytes) : Except Error HandshakeMessage := do
  let (version, bs) ← readVersion bs
  let bs ← readTag .oneTimeKey oneTimeKeyTag bs
  let (oneTimeKey, bs) ← readString .oneTimeKey bs
  let bs ← readTag .baseKey baseKeyTag bs
  let (baseKey, bs) ← readString .baseKey bs
  let bs ← readTag .identityKey identityKeyTag bs
  let (identityKey, bs) ← readString .identityKey bs
  let bs ← readTag .message messageTag bs
  let (message, bs) ← readString .message bs
  readEnd bs
  return ⟨version, oneTimeKey, baseKey, identityKey, message⟩

end HandshakeMessage

end EndToEnd.Wire

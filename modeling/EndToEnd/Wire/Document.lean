import EndToEnd.Cbor.Codec
import EndToEnd.Wire.Error

/-!
# Documents

What devices publish and send each other: the list of a peer's devices, the public keys of a device,
and the envelope of an encrypted body. Each is one CBOR record and nothing after it.

The names of the fields are part of the format.
-/

namespace EndToEnd.Wire

/-- The most bytes that a document has. -/
def maxDocumentSize : Nat := 16777216

/-- A value written as a document. -/
def writeDocument {α : Type} (c : Cbor.Codec α) (v : α) : Bytes := c.write v

/-- The value of a document. Its size is checked before it is read. -/
def readDocument {α : Type} (c : Cbor.Codec α) (part : Part) (bs : Bytes) : Except Error α :=
  if bs.length > maxDocumentSize then .error (.tooLarge part bs.length maxDocumentSize)
  else
    match c.read (.ofDocument bs) bs with
    | none => .error .malformedDocument
    | some (v, []) => .ok v
    | some (_, rest) => .error (.trailingBytes rest.length)

/-! ## Envelopes -/

/-- The key of a body, encrypted for one device. -/
structure Entry where
  recipient : DeviceId
  /-- The key is a handshake message, not a ratchet message with its authenticator. -/
  isHandshake : Bool
  key : Bytes
deriving DecidableEq

/-- A body encrypted once, and its key encrypted for each device. -/
structure Envelope where
  sender : DeviceId
  iv : Octets 16
  entries : List Entry
  body : Bytes
deriving DecidableEq

/-- The form of an entry. -/
def Entry.codec : Cbor.Codec Entry :=
  .record [⟨"recipient_device_id", _, .deviceId⟩, ⟨"pre_key", _, .bool⟩, ⟨"key", _, .bytes⟩]
    (fun e => (e.recipient, e.isHandshake, e.key, ()))
    (fun (recipient, isHandshake, key, ()) => ⟨recipient, isHandshake, key⟩)

namespace Envelope

/-- The form of an envelope. -/
def codec : Cbor.Codec Envelope :=
  .record [⟨"sender_device_id", _, .deviceId⟩, ⟨"iv", _, .octets 16⟩,
      ⟨"keys", _, .list Entry.codec⟩, ⟨"payload", _, .bytes⟩]
    (fun e => (e.sender, e.iv, e.entries, e.body, ()))
    (fun (sender, iv, entries, body, ()) => ⟨sender, iv, entries, body⟩)

/-- The entry for a device: the first that is addressed to it. -/
def entryFor (e : Envelope) (device : DeviceId) : Option Entry :=
  e.entries.find? (·.recipient = device)

/-- An envelope written. -/
def encode (e : Envelope) : Bytes := writeDocument codec e

/-- The envelope that the bytes are. -/
def decode (bs : Bytes) : Except Error Envelope := readDocument codec .envelope bs

end Envelope

/-! ## Bundles -/

/-- A published one-time key. -/
structure PublishedKey where
  id : UInt32
  key : Bytes
deriving DecidableEq

/-- What a device publishes for peers that want to write to it. -/
structure PublishedBundle where
  device : DeviceId
  identityKey : Bytes
  oneTimeKeys : List PublishedKey
deriving DecidableEq

/-- The form of a published one-time key. -/
def PublishedKey.codec : Cbor.Codec PublishedKey :=
  .record [⟨"id", _, .word32⟩, ⟨"key", _, .bytes⟩]
    (fun k => (k.id, k.key, ())) (fun (id, key, ()) => ⟨id, key⟩)

namespace PublishedBundle

/-- The form of a published bundle. -/
def codec : Cbor.Codec PublishedBundle :=
  .record [⟨"device_id", _, .deviceId⟩, ⟨"identity_key", _, .bytes⟩,
      ⟨"pre_keys", _, .list PublishedKey.codec⟩]
    (fun b => (b.device, b.identityKey, b.oneTimeKeys, ()))
    (fun (device, identityKey, oneTimeKeys, ()) => ⟨device, identityKey, oneTimeKeys⟩)

/-- A bundle written. -/
def encode (b : PublishedBundle) : Bytes := writeDocument codec b

/-- The bundle that the bytes are. -/
def decode (bs : Bytes) : Except Error PublishedBundle := readDocument codec .bundle bs

end PublishedBundle

/-! ## Device lists -/

/-- The devices that a peer advertises. -/
structure DeviceList where
  peer : String
  devices : List DeviceId
deriving DecidableEq

namespace DeviceList

/-- The form of a device list. -/
def codec : Cbor.Codec DeviceList :=
  .record [⟨"peer", _, .text⟩, ⟨"devices", _, .list .deviceId⟩]
    (fun l => (l.peer, l.devices, ())) (fun (peer, devices, ()) => ⟨peer, devices⟩)

/-- A list written. -/
def encode (l : DeviceList) : Bytes := writeDocument codec l

/-- The list that the bytes are. -/
def decode (bs : Bytes) : Except Error DeviceList := readDocument codec .deviceList bs

end DeviceList

end EndToEnd.Wire

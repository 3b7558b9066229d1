import EndToEnd.Bundle
import EndToEnd.Session.State

/-!
# Stored forms

Sessions and bundles are stored as one CBOR record each, with all their fields, private halves
included. Bytes after the record are ignored. The names of the fields are part of the format.
-/

namespace EndToEnd

/-- The form of a key. -/
def Key.codec : Cbor.Codec Key := .octets 32

/-- The form of a key pair. -/
def KeyPair.codec : Cbor.Codec KeyPair :=
  .record [⟨"public_key", _, Key.codec⟩, ⟨"private_key", _, .option Key.codec⟩]
    (fun p => (p.publicKey, p.privateKey, ()))
    (fun (publicKey, privateKey, ()) => ⟨publicKey, privateKey⟩)

/-- The form of a skipped key. -/
def SkippedKey.codec : Cbor.Codec SkippedKey :=
  .record [⟨"timestamp", _, .word64⟩, ⟨"key", _, Key.codec⟩]
    (fun k => (k.timestamp, k.key, ())) (fun (timestamp, key, ()) => ⟨timestamp, key⟩)

/-- A stored value read; what follows it is ignored. -/
def readStored {α : Type} (c : Cbor.Codec α) (bs : Bytes) : Option α :=
  (c.read (.ofDocument bs) bs).map (·.1)

namespace Session

/-- The form of a session. -/
def codec : Cbor.Codec Session :=
  .record [⟨"my_identity_key", _, .option KeyPair.codec⟩,
      ⟨"my_ephemeral_key", _, .option KeyPair.codec⟩,
      ⟨"their_one_time_key", _, .option Key.codec⟩,
      ⟨"my_ratchet_key", _, .option KeyPair.codec⟩,
      ⟨"their_ratchet_key", _, .option Key.codec⟩,
      ⟨"root_key", _, Key.codec⟩,
      ⟨"send_chain_key", _, .option Key.codec⟩,
      ⟨"send_chain_index", _, .word32⟩,
      ⟨"recv_chain_key", _, .option Key.codec⟩,
      ⟨"recv_chain_index", _, .word32⟩,
      ⟨"ratchet_pending", _, .bool⟩,
      ⟨"skipped_message_keys", _, .list SkippedKey.codec⟩]
    (fun s => (s.identity, s.ephemeral, s.theirOneTime, s.ratchet, s.theirRatchet, s.root,
      s.sendChain, s.sendIndex, s.receiveChain, s.receiveIndex, s.stepPending, s.skipped, ()))
    (fun (identity, ephemeral, theirOneTime, ratchet, theirRatchet, root, sendChain, sendIndex,
        receiveChain, receiveIndex, stepPending, skipped, ()) =>
      ⟨identity, ephemeral, theirOneTime, ratchet, theirRatchet, root, sendChain, sendIndex,
        receiveChain, receiveIndex, stepPending, skipped⟩)

/-- A session in its stored form. -/
def encode (s : Session) : Bytes := codec.write s

/-- The session of a stored form. -/
def decode (bs : Bytes) : Option Session := readStored codec bs

end Session

/-- The form of a one-time key. -/
def OneTimeKey.codec : Cbor.Codec OneTimeKey :=
  .record [⟨"id", _, .word32⟩, ⟨"key", _, KeyPair.codec⟩]
    (fun k => (k.id, k.pair, ())) (fun (id, pair, ()) => ⟨id, pair⟩)

namespace Bundle

/-- The form of a bundle. -/
def codec : Cbor.Codec Bundle :=
  .record [⟨"device_id", _, .deviceId⟩, ⟨"identity_key", _, KeyPair.codec⟩,
      ⟨"pre_keys", _, .list OneTimeKey.codec⟩, ⟨"next_pre_key_id", _, .word32⟩]
    (fun b => (b.device, b.identity, b.oneTimeKeys, b.nextId, ()))
    (fun (device, identity, oneTimeKeys, nextId, ()) => ⟨device, identity, oneTimeKeys, nextId⟩)

/-- A bundle in its stored form. -/
def encode (b : Bundle) : Bytes := codec.write b

/-- The bundle of a stored form. -/
def decode (bs : Bytes) : Option Bundle := readStored codec bs

end Bundle

/-- The form of the devices of a peer. -/
def deviceListCodec : Cbor.Codec (List DeviceId) := .list .deviceId

end EndToEnd

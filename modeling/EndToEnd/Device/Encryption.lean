import EndToEnd.Device.Action
import EndToEnd.Handshake
import EndToEnd.Session.Ratchet

/-!
# Encrypting for peers

A body is encrypted once, under a fresh key, and that key is sealed in the session with each device
of each recipient, one after the other. A device without a session gets one from a one-time key of
its bundle; one without a session and without such a key is left out, and so is this device.

A session is saved before the next device's turn, so a refusal in between leaves the sessions of the
devices before it advanced.
-/

namespace EndToEnd.Device

variable {σ : Type} [Store σ]

/-- A session with a device that we have none with, from a one-time key of its bundle. -/
def initiate (S : Suite) (peer : DeviceId) : Action σ (Option Session) := do
  match ← ask (.bundle peer) with
  | none => return none
  | some bundle =>
    match ← draw bundle.drawOneTimeKey with
    | none => return none
    | some oneTime =>
      let own ← currentBundle
      let ephemeral ← draw (·.drawKeyPair S)
      let secret ← attempt (.session ∘ .crypto)
        (Handshake.initiatorSecret S own.identity ephemeral bundle.identity.publicKey.bytes
          oneTime.publicKey.bytes)
      let session ← draw (Session.drawInitiator S secret own.identity ephemeral oneTime.publicKey)
      return some session

/-- The session with a device: the stored one, or a new one. -/
def sessionWith (S : Suite) (peer : DeviceId) : Action σ (Option Session) := do
  match ← ask (.session peer) with
  | some session => return some session
  | none => initiate S peer

/-- The entry for a device. -/
def entryFor (S : Suite) (d : Device) (bodyKey : Key) (recipient : DeviceId) :
    Action σ (Option Wire.Entry) := do
  if recipient = d.id then return none
  else
    match ← sessionWith S recipient with
    | none => return none
    | some session =>
      let (key, after) ← tryDraw .session (session.sealForPeer S bodyKey.bytes)
      ask (.saveSession recipient after)
      return some ⟨recipient, !session.isEstablished, key⟩

/-- The entries for the devices of a peer. -/
def entriesFor (S : Suite) (d : Device) (bodyKey : Key) (peer : String) :
    Action σ (List Wire.Entry) := do
  let devices ← ask (.devices peer)
  let entries ← devices.mapM (d.entryFor S bodyKey)
  return entries.flatMap (·.toList)

/-- An envelope with a plaintext for all devices of the recipients. -/
def encrypt (S : Suite) (d : Device) (recipients : List String) (plaintext : Bytes) :
    Action σ Wire.Envelope := do
  let bodyKey ← draw (·.draw 32)
  let iv ← draw (·.draw 16)
  let entries ← recipients.mapM (d.entriesFor S bodyKey)
  return ⟨d.id, iv, entries.flatten, S.encryptWith bodyKey iv plaintext⟩

end EndToEnd.Device

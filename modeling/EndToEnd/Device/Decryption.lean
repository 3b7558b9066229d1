import EndToEnd.Device.Action
import EndToEnd.Handshake
import EndToEnd.Session.Ratchet

/-!
# Decrypting from peers

The entry for this device says how to go on. A ratchet message belongs to the session with the
sender. A handshake message that names a one-time key of our bundle starts a new session, in place
of the one there is; the one-time key is then removed and the bundle filled up. A handshake message
that names another key belongs to the session there is.

Nothing is saved before the body is decrypted. Then the session is saved first, and the bundle last.
-/

namespace EndToEnd.Device

variable {σ : Type} [Store σ]

/-- What an entry is opened with. -/
structure Opening where
  session : Session
  /-- The ratchet message with its authenticator. -/
  payload : Bytes
  /-- Our bundle without the one-time key that the entry uses up. -/
  bundle : Option Bundle
deriving DecidableEq

/-- The opening of a handshake message that names a one-time key of our bundle: the session that
answers it. -/
def respond (S : Suite) (d : Device) (bundle : Bundle) (oneTime : KeyPair)
    (m : Wire.HandshakeMessage) : Action σ Opening := do
  let secret ← attempt (.session ∘ .crypto)
    (Handshake.responderSecret S bundle.identity oneTime m.identityKey m.baseKey)
  let (body, _) ← attempt .wire (Wire.splitMac m.message)
  let first ← attempt .wire (Wire.RatchetMessage.decode body)
  let session ← attempt (.session ∘ .crypto) (Session.responder S secret first.ratchetKey)
  let (_, left) := bundle.remove m.oneTimeKey
  let bundle ← draw fun env => (left.replenish S d.config.oneTimeKeys env).2
  return ⟨session, m.message, some bundle⟩

/-- The opening of a handshake message. -/
def openHandshake (S : Suite) (d : Device) (sender : DeviceId) (key : Bytes)
    (existing : Option Session) : Action σ Opening := do
  let m ← attempt .wire (Wire.HandshakeMessage.decode key)
  let bundle ← currentBundle
  match bundle.find? m.oneTimeKey, existing with
  | some oneTime, _ => d.respond S bundle oneTime m
  | none, some session => return ⟨session, m.message, none⟩
  | none, none => throw (.noMatchingSession sender .oneTimeKey)

/-- The opening of an entry. -/
def openEntry (S : Suite) (d : Device) (sender : DeviceId) (entry : Wire.Entry) :
    Action σ Opening := do
  let existing ← ask (.session sender)
  if entry.isHandshake then d.openHandshake S sender entry.key existing
  else
    match existing with
    | some session => return ⟨session, entry.key, none⟩
    | none => throw (.noMatchingSession sender .session)

/-- Our bundle replaced, and to be published again. -/
def replaceBundle (bundle : Bundle) : Action σ Unit := do
  ask (.saveCurrent bundle)
  setUnpublished true

/-- The plaintext of an envelope. -/
def decrypt (S : Suite) (d : Device) (e : Wire.Envelope) : Action σ Bytes := do
  match e.entryFor d.id with
  | none => throw (.noMatchingSession e.sender .entry)
  | some entry =>
    let opening ← d.openEntry S e.sender entry
    let (bodyKey, after) ← attempt .session
      (opening.session.openMessage S d.config (← now) opening.payload entry.isHandshake)
    let plaintext ← attempt .payload (S.decrypt bodyKey e.iv.bytes e.body)
    ask (.saveSession e.sender after)
    match opening.bundle with
    | none => pure ()
    | some bundle => replaceBundle bundle
    return plaintext

end EndToEnd.Device

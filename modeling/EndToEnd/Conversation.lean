import EndToEnd.Handshake
import EndToEnd.Session.Ratchet

/-!
# Conversations

Both sessions of a conversation over one simulated environment, from the handshake on. Messages in
flight are values: they can be held back, reordered, repeated or altered before they are delivered.

A message that cannot be sealed or opened leaves both sessions as they were; only the randomness it
drew is gone.
-/

namespace EndToEnd

/-- The two ends of a conversation. -/
inductive Side
  /-- The end that started the handshake. -/
  | initiator
  /-- The owner of the one-time key. -/
  | responder
deriving DecidableEq

namespace Side

/-- The other end. -/
def peer : Side → Side
  | .initiator => .responder
  | .responder => .initiator

@[simp] theorem peer_peer (side : Side) : side.peer.peer = side := by cases side <;> rfl

theorem peer_ne (side : Side) : side.peer ≠ side := by cases side <;> exact nofun

/-- There are two sides and no third. -/
theorem eq_or_eq_peer (side other : Side) : other = side ∨ other = side.peer := by
  cases side <;> cases other <;> first | exact .inl rfl | exact .inr rfl

/-- What is to be shown of both sides is shown of one after the other. -/
theorem forall_iff {P : Side → Prop} : (∀ side, P side) ↔ P .initiator ∧ P .responder :=
  ⟨fun h => ⟨h _, h _⟩, fun h side => match side with | .initiator => h.1 | .responder => h.2⟩

instance {P : Side → Prop} [DecidablePred P] : Decidable (∀ side, P side) :=
  decidable_of_iff _ forall_iff.symm

end Side

/-- A message on its way. -/
structure Flight where
  sender : Side
  /-- The bytes are a handshake message, not a ratchet message with its authenticator. -/
  isHandshake : Bool
  bytes : Bytes
deriving DecidableEq

/-- The ratchet message, with its authenticator, that a message on its way carries. -/
def Flight.payload (f : Flight) : Except Wire.Error Bytes :=
  if f.isHandshake then (Wire.HandshakeMessage.decode f.bytes).map (·.message) else .ok f.bytes

/-- What two fresh key pairs on each side agree on, and a session on each side. -/
structure Encounter where
  secret : Bytes
  initiator : Session
  responder : Session
deriving DecidableEq

/-- A handshake between fresh keys: the identity and the ephemeral key of one side, the identity and
the one-time key of the other, then the first ratchet key. The responder's session is built from
that ratchet key at once, as a device would on reading the first handshake message. -/
def Encounter.draw (S : Suite) (env : Environment) : Except SessionError Encounter × Environment :=
  let (ourIdentity, env) := env.drawKeyPair S
  let (ephemeral, env) := env.drawKeyPair S
  let (theirIdentity, env) := env.drawKeyPair S
  let (oneTime, env) := env.drawKeyPair S
  match Handshake.initiatorSecret S ourIdentity ephemeral theirIdentity.publicKey.bytes
      oneTime.publicKey.bytes with
  | .error cause => (.error (.crypto cause), env)
  | .ok secret =>
    let (ratchet, env) := env.drawKeyPair S
    let initiator := Session.initiator S secret ourIdentity ephemeral oneTime.publicKey ratchet
    let responder := Session.responder S secret ratchet.publicKey.bytes
    (responder.mapError .crypto |>.map (⟨secret, initiator, ·⟩), env)

/-- The two sessions of a conversation and what they share. -/
structure Conversation where
  env : Environment
  config : Config
  initiator : Session
  responder : Session
deriving DecidableEq

namespace Conversation

/-- A conversation between fresh keys. -/
def start (S : Suite) (env : Environment) (config : Config) : Except SessionError Conversation :=
  match Encounter.draw S env with
  | (.ok met, env) => .ok ⟨env, config, met.initiator, met.responder⟩
  | (.error cause, _) => .error cause

/-- The session of one side. -/
def session (c : Conversation) : Side → Session
  | .initiator => c.initiator
  | .responder => c.responder

/-- The conversation with another session on one side. -/
def setSession (c : Conversation) (side : Side) (s : Session) : Conversation :=
  match side with
  | .initiator => { c with initiator := s }
  | .responder => { c with responder := s }

/-- Setting the session of one side leaves the other's as it was. -/
theorem session_setSession (c : Conversation) (side other : Side) (s : Session) :
    (c.setSession side s).session other = if other = side then s else c.session other := by
  cases side <;> cases other <;> rfl

/-- A plaintext sealed by one side. -/
def send (S : Suite) (c : Conversation) (sender : Side) (plaintext : Bytes) :
    Except SessionError Flight × Conversation :=
  let session := c.session sender
  let (sealed, env) := session.sealForPeer S plaintext c.env
  let c := { c with env }
  match sealed with
  | .error cause => (.error cause, c)
  | .ok (bytes, after) =>
    (.ok ⟨sender, !session.isEstablished, bytes⟩, c.setSession sender after)

/-- A message delivered to the side that did not send it. -/
def receive (S : Suite) (c : Conversation) (f : Flight) :
    Except SessionError Bytes × Conversation :=
  let receiver := f.sender.peer
  let opened : Except SessionError (Bytes × Session) := do
    let payload ← f.payload.mapError .wire
    (c.session receiver).openMessage S c.config c.env.clock payload f.isHandshake
  match opened with
  | .error cause => (.error cause, c)
  | .ok (plaintext, after) => (.ok plaintext, c.setSession receiver after)

/-- A plaintext sealed by one side and delivered to the other at once. -/
def exchange (S : Suite) (c : Conversation) (sender : Side) (plaintext : Bytes) :
    Except SessionError Bytes × Conversation :=
  match c.send S sender plaintext with
  | (.ok flight, c) => c.receive S flight
  | (.error cause, c) => (.error cause, c)

end Conversation

end EndToEnd

import EndToEnd.Derivation
import EndToEnd.Environment

/-!
# The state of a session

A session is what a device remembers of its conversation with one other device: the root key, one
chain in each direction, the ratchet key of each side, and the keys of messages that were passed
over. It starts on either side of a handshake. The side that started it also keeps the three keys
that its handshake messages repeat until the peer has answered.

Sessions are plain data: every operation takes one and gives back another.
-/

namespace EndToEnd

/-- The key of a message that was passed over, and when that happened. -/
structure SkippedKey where
  timestamp : UInt64
  key : Key
deriving DecidableEq

namespace SkippedKey

/-- Whether the key is still young enough. The clock may have gone back since it was kept. -/
def isFresh (k : SkippedKey) (now : UInt64) (maxAge : Nat) : Bool :=
  now.toNat - k.timestamp.toNat ≤ maxAge

/-- Whether the key is that of a message, given by its bytes and its authenticator. -/
def opens (k : SkippedKey) (S : Suite) (body mac : Bytes) : Bool :=
  (MessageKeys.ofKey S k.key).verifies S body mac

end SkippedKey

/-- The conversation of a device with one other device. -/
structure Session where
  /-- Our identity key, if we started the handshake. -/
  identity : Option KeyPair
  /-- Our ephemeral key, if we started the handshake. -/
  ephemeral : Option KeyPair
  /-- The peer's one-time key, if we started the handshake. -/
  theirOneTime : Option Key
  /-- Our ratchet key, which names our sending chain. -/
  ratchet : Option KeyPair
  /-- The peer's ratchet key, which names our receiving chain. -/
  theirRatchet : Option Key
  root : Key
  sendChain : Option Key
  /-- The position of the next message that we send. -/
  sendIndex : UInt32
  receiveChain : Option Key
  /-- The position after the last one that we accepted. -/
  receiveIndex : UInt32
  /-- The peer has a new ratchet key, and we have not answered with one. -/
  stepPending : Bool
  /-- The keys of messages passed over, in the order in which they were. -/
  skipped : List SkippedKey
deriving DecidableEq

namespace Session

/-- The session of the side that starts the handshake: the first chain is for sending. -/
def initiator (S : Suite) (secret : Bytes) (identity ephemeral : KeyPair) (theirOneTime : Key)
    (ratchet : KeyPair) : Session :=
  let keys := RootStep.ofSecret S secret
  { identity, ephemeral, theirOneTime, ratchet
    theirRatchet := none
    root := keys.root
    sendChain := keys.chain
    sendIndex := 0
    receiveChain := none
    receiveIndex := 0
    stepPending := false
    skipped := [] }

/-- That session under a freshly drawn ratchet key. -/
def drawInitiator (S : Suite) (secret : Bytes) (identity ephemeral : KeyPair) (theirOneTime : Key)
    (env : Environment) : Session × Environment :=
  let (ratchet, env) := env.drawKeyPair S
  (initiator S secret identity ephemeral theirOneTime ratchet, env)

/-- The session of the side that answers the handshake, from the other's ratchet key: the first
chain is for receiving. -/
def responder (S : Suite) (secret theirRatchet : Bytes) : Except CryptoError Session := do
  let theirRatchet ← Key.parse .publicHalf theirRatchet
  let keys := RootStep.ofSecret S secret
  return {
    identity := none
    ephemeral := none
    theirOneTime := none
    ratchet := none
    theirRatchet
    root := keys.root
    sendChain := none
    sendIndex := 0
    receiveChain := keys.chain
    receiveIndex := 0
    stepPending := false
    skipped := [] }

/-- Whether a ratchet key of the peer is known: it has answered us, or we are answering it. -/
def isEstablished (s : Session) : Bool := s.theirRatchet.isSome

/-- Whether we started the handshake. -/
def isInitiator (s : Session) : Bool := s.ephemeral.isSome

/-- The public half of our ratchet key. -/
def ratchetPublic (s : Session) : Option Key := s.ratchet.map (·.publicKey)

end Session

end EndToEnd

import EndToEnd.Bundle
import EndToEnd.Handshake
import EndToEnd.Proofs.Session.Opening

/-!
# The two sides of a handshake

Two key pairs agree if each side of the pair comes to the same result. Where the keys of a handshake
agree, the owner of the one-time key comes to the secret of the one that wrote first, and the two
sessions that start from it name the same keys.
-/

namespace EndToEnd

variable {S : Suite}

/-- The agreements of two pairs, each with the public half of the other, have the same result. -/
def KeyPair.AgreesWith (S : Suite) (p q : KeyPair) : Prop :=
  p.agree S q.publicKey.bytes = q.agree S p.publicKey.bytes

/-- Both sides make the same three agreements. -/
theorem Handshake.responderSecret_eq {identity ephemeral theirIdentity theirOneTime : KeyPair}
    (hfirst : ephemeral.AgreesWith S theirIdentity) (hsecond : identity.AgreesWith S theirOneTime)
    (hthird : ephemeral.AgreesWith S theirOneTime) :
    responderSecret S theirIdentity theirOneTime identity.publicKey.bytes
        ephemeral.publicKey.bytes =
      initiatorSecret S identity ephemeral theirIdentity.publicKey.bytes
        theirOneTime.publicKey.bytes := by
  unfold KeyPair.AgreesWith at hfirst hsecond hthird
  rw [responderSecret, initiatorSecret, hfirst, hsecond, hthird]

/-- What the side that wrote first made a handshake from. -/
structure Meeting where
  identity : KeyPair
  ephemeral : KeyPair
  theirOneTime : Key
  secret : Bytes
  /-- The first ratchet key. -/
  ratchet : KeyPair

namespace Meeting

/-- The first key of the first chain. -/
def chain (S : Suite) (m : Meeting) : Key := (RootStep.ofSecret S m.secret).chain

/-- The session of the side that wrote first, before it has written. -/
def initiator (S : Suite) (m : Meeting) : Session :=
  .initiator S m.secret m.identity m.ephemeral m.theirOneTime m.ratchet

/-- The session of the owner of the one-time key, before it has read. -/
def responder (S : Suite) (m : Meeting) : Session where
  identity := none
  ephemeral := none
  theirOneTime := none
  ratchet := none
  theirRatchet := some m.ratchet.publicKey
  root := (RootStep.ofSecret S m.secret).root
  sendChain := none
  sendIndex := 0
  receiveChain := some (m.chain S)
  receiveIndex := 0
  stepPending := false
  skipped := []

/-- The responder starts its session from the secret and the ratchet key of the meeting. -/
theorem responder_eq (S : Suite) (m : Meeting) :
    Session.responder S m.secret m.ratchet.publicKey.bytes = .ok (m.responder S) := by
  rw [Session.responder, Key.parse_bytes]
  rfl

/-- A responder that has only started has drawn no ratchet key. -/
theorem responder_ratchet (S : Suite) (m : Meeting) : (m.responder S).ratchet = none := rfl

/-- The handshake message of the meeting around a ratchet message. -/
def message (m : Meeting) (payload : Bytes) : Wire.HandshakeMessage :=
  .current m.theirOneTime.bytes m.ephemeral.publicKey.bytes m.identity.publicKey.bytes payload

/-- The two sides came to the secret of the meeting with the identity key of the owner. -/
def MadeWith (S : Suite) (m : Meeting) (theirIdentity : Key) : Prop :=
  Handshake.initiatorSecret S m.identity m.ephemeral theirIdentity.bytes m.theirOneTime.bytes =
    .ok m.secret

/-- The owner of the one-time key comes to the secret of the meeting. -/
theorem MadeWith.agreed {m : Meeting} {theirIdentity oneTime : KeyPair}
    (h : m.MadeWith S theirIdentity.publicKey) (honeTime : oneTime.publicKey = m.theirOneTime)
    (hagrees : ∀ p ∈ [m.identity, m.ephemeral], ∀ q ∈ [theirIdentity, oneTime],
      p.AgreesWith S q) :
    Handshake.responderSecret S theirIdentity oneTime m.identity.publicKey.bytes
      m.ephemeral.publicKey.bytes = .ok m.secret := by
  rw [Handshake.responderSecret_eq (hagrees _ (by simp) _ (by simp))
    (hagrees _ (by simp) _ (by simp)) (hagrees _ (by simp) _ (by simp)), honeTime]
  exact h

end Meeting

end EndToEnd

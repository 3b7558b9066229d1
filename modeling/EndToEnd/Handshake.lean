import EndToEnd.KeyPair

/-!
# The triple agreement

Two devices that have never met agree on a secret from four key pairs: the identity key of each, an
ephemeral key of the one that writes first, and a one-time key of the other. Each side makes three
agreements with its own private halves, in the order in which the other makes the same three, so
both write down the same 96 bytes.
-/

namespace EndToEnd.Handshake

/-- The secret on the side that writes first. -/
def initiatorSecret (S : Suite) (identity ephemeral : KeyPair)
    (theirIdentity theirOneTime : Bytes) : Except CryptoError Bytes := do
  let first ← ephemeral.agree S theirIdentity
  let second ← identity.agree S theirOneTime
  let third ← ephemeral.agree S theirOneTime
  return first.bytes ++ second.bytes ++ third.bytes

/-- The secret on the side that owns the one-time key. -/
def responderSecret (S : Suite) (identity oneTime : KeyPair) (theirIdentity theirBase : Bytes) :
    Except CryptoError Bytes := do
  let first ← identity.agree S theirBase
  let second ← oneTime.agree S theirIdentity
  let third ← oneTime.agree S theirBase
  return first.bytes ++ second.bytes ++ third.bytes

end EndToEnd.Handshake

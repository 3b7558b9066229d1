import EndToEnd.Config
import EndToEnd.Session.Error
import EndToEnd.Session.State
import EndToEnd.Wire.HandshakeMessage

/-!
# The double ratchet

Sending takes the next key of the sending chain. If the peer has a new ratchet key, or there is no
sending chain yet, a step comes first: a fresh ratchet key of ours and an agreement with theirs give
the next root key and a new sending chain.

Receiving first tries the keys of messages passed over. Then a message under an unknown ratchet key
takes a step of its own, which gives the next root key and a new receiving chain; a message inside a
handshake message never does. The keys of the positions before the message's own are kept, up to a
number and an age.

An operation answers with its result and the session after it, or with a refusal and nothing else,
so a refused message changes nothing. Only a sending step draws randomness.
-/

namespace EndToEnd.Session

/-! ## Sending -/

/-- The peer's ratchet key, if a sending step is due. -/
def sendStepDue (s : Session) : Option Key :=
  if s.stepPending || s.sendChain.isNone then s.theirRatchet else none

/-- A sending step under a fresh ratchet key. -/
def sendStep (S : Suite) (s : Session) (fresh : KeyPair) (their : Key) :
    Except SessionError Session := do
  let shared ← (fresh.agree S their.bytes).mapError .crypto
  let keys := RootStep.next S s.root shared
  return { s with
    root := keys.root
    sendChain := some keys.chain
    sendIndex := 0
    ratchet := some fresh
    stepPending := false }

/-- The next position of a chain, unless it is the last. -/
def nextIndex (index : UInt32) : Except SessionError UInt32 :=
  if index = 0xffffffff then .error .indexOverflow else .ok (index + 1)

/-- The bytes of a message and the authenticator behind them. -/
def authenticated (S : Suite) (keys : MessageKeys) (m : Wire.RatchetMessage) :
    Except Wire.Error Bytes := do
  let body ← m.encode
  return body ++ (keys.mac S body).bytes

/-- A plaintext sealed with the next key of the sending chain. -/
def sealNext (S : Suite) (s : Session) (plaintext : Bytes) :
    Except SessionError (Bytes × Session) := do
  match s.sendChain, s.ratchetPublic with
  | some chain, some ratchetKey =>
    let next ← nextIndex s.sendIndex
    let keys := MessageKeys.ofKey S (messageKey S chain)
    let message :=
      Wire.RatchetMessage.current ratchetKey.bytes s.sendIndex (keys.encrypt S plaintext)
    let payload ← (authenticated S keys message).mapError .wire
    return (payload, { s with sendChain := some (nextChainKey S chain), sendIndex := next })
  | _, _ => .error .noSendChain

/-- A plaintext sealed into a ratchet message, after a sending step if one is due. -/
def sealMessage (S : Suite) (s : Session) (plaintext : Bytes) (env : Environment) :
    Except SessionError (Bytes × Session) × Environment :=
  match s.sendStepDue with
  | none => (s.sealNext S plaintext, env)
  | some their =>
    let (fresh, env) := env.drawKeyPair S
    (do (← s.sendStep S fresh their).sealNext S plaintext, env)

/-- A plaintext sealed into a ratchet message inside a handshake message. -/
def sealHandshake (S : Suite) (s : Session) (plaintext : Bytes) (env : Environment) :
    Except SessionError (Bytes × Session) × Environment :=
  match s.identity, s.ephemeral, s.theirOneTime with
  | some identity, some ephemeral, some oneTime =>
    let (sealed, env) := s.sealMessage S plaintext env
    (do
      let (payload, after) ← sealed
      let message := Wire.HandshakeMessage.current oneTime.bytes ephemeral.publicKey.bytes
        identity.publicKey.bytes payload
      let bytes ← message.encode.mapError .wire
      return (bytes, after), env)
  | _, _, _ => (.error .notInitiator, env)

/-- A plaintext sealed for the peer: inside a handshake message until the peer has answered. -/
def sealForPeer (S : Suite) (s : Session) (plaintext : Bytes) (env : Environment) :
    Except SessionError (Bytes × Session) × Environment :=
  if s.isEstablished then s.sealMessage S plaintext env else s.sealHandshake S plaintext env

/-! ## Receiving -/

/-- The session without the skipped keys that are too old, and then without the first ones that are
too many. -/
def prune (config : Config) (now : UInt64) (s : Session) : Session :=
  let fresh := s.skipped.filter (·.isFresh now config.maxAge)
  { s with skipped := fresh.drop (fresh.length - config.maxSkippedKeys) }

/-- A ciphertext opened with the keys of its message. -/
def openWith (S : Suite) (keys : MessageKeys) (ciphertext : Bytes) : Except SessionError Bytes :=
  (keys.decrypt S ciphertext).mapError fun cause => .rejected (.undecipherable cause)

/-- The plaintext under the first skipped key that is the message's, and the session without that
key; nothing, if it is the key of none of them. -/
def openSkipped (S : Suite) (s : Session) (body mac ciphertext : Bytes) :
    Except SessionError (Option (Bytes × Session)) := do
  match s.skipped.findIdx? (·.opens S body mac) with
  | none => return none
  | some i =>
    match s.skipped[i]? with
    | none => return none
    | some k =>
      let plaintext ← openWith S (MessageKeys.ofKey S k.key) ciphertext
      return some (plaintext, { s with skipped := s.skipped.eraseIdx i })

/-- A receiving step under a ratchet key of the peer. -/
def receiveStep (S : Suite) (s : Session) (theirRatchet : Bytes) : Except SessionError Session := do
  match s.ratchet with
  | none => .error (.rejected .ratchetTooEarly)
  | some ratchet =>
    let shared ← (ratchet.agree S theirRatchet).mapError .crypto
    let their ← (Key.parse .publicHalf theirRatchet).mapError .crypto
    let keys := RootStep.next S s.root shared
    return { s with
      root := keys.root
      receiveChain := some keys.chain
      receiveIndex := 0
      theirRatchet := some their
      stepPending := true }

/-- Whether a message outside a handshake message opens a chain: its ratchet key is not the known
one. -/
def isNewRatchet (s : Session) (theirRatchet : Bytes) : Bool :=
  s.theirRatchet.map (·.bytes) != some theirRatchet

/-- The message keys of `count` positions of a chain behind those already passed, newest first, and
the chain key after them. -/
def passKeys (S : Suite) : (count : Nat) → (chain : Key) → (passed : List Key) → List Key × Key
  | 0, chain, passed => (passed.reverse, chain)
  | count + 1, chain, passed =>
    passKeys S count (nextChainKey S chain) (messageKey S chain :: passed)

/-- The keys passed are those of the positions in between, in order. -/
theorem passKeys_eq (S : Suite) (count : Nat) (chain : Key) (passed : List Key) :
    passKeys S count chain passed =
      (passed.reverse ++ (List.range count).map (messageKeyAt S chain),
        chainKeyAt S chain count) := by
  induction count generalizing chain passed with
  | zero => simp only [passKeys, List.range_zero, List.map_nil, List.append_nil, chainKeyAt]
  | succ count ih =>
    have shifted : (messageKeyAt S chain ∘ Nat.succ) = messageKeyAt S (nextChainKey S chain) := by
      funext i
      rfl
    rw [passKeys, ih, List.range_succ_eq_map, List.map_cons, List.map_map, shifted,
      List.reverse_cons, List.append_assoc]
    rfl

/-- A message opened at its position of the receiving chain. The keys of the positions passed over
are kept. -/
def openOnChain (S : Suite) (config : Config) (now : UInt64) (s : Session) (body mac : Bytes)
    (m : Wire.RatchetMessage) : Except SessionError (Bytes × Session) := do
  match s.receiveChain with
  | none => .error .noReceiveChain
  | some chain =>
    let gap := m.chainIndex.toNat - s.receiveIndex.toNat
    if m.chainIndex < s.receiveIndex then
      .error (.rejected (.consumed m.chainIndex s.receiveIndex))
    else if gap > config.maxSkip then
      .error (.tooManySkipped s.receiveIndex m.chainIndex config.maxSkip)
    else
      let (passed, chain) := passKeys S gap chain []
      let keys := MessageKeys.ofKey S (messageKey S chain)
      if keys.verifies S body mac then
        let plaintext ← openWith S keys m.ciphertext
        let next ← nextIndex m.chainIndex
        return (plaintext, { s with
          receiveChain := some (nextChainKey S chain)
          receiveIndex := next
          skipped := s.skipped ++ passed.map (SkippedKey.mk now) })
      else .error (.rejected .macMismatch)

/-- A ratchet message with its authenticator opened, at a time of the clock. -/
def openMessage (S : Suite) (config : Config) (now : UInt64) (s : Session) (payload : Bytes)
    (isHandshake : Bool) : Except SessionError (Bytes × Session) := do
  let (body, mac) ← (Wire.splitMac payload).mapError .wire
  let message ← (Wire.RatchetMessage.decode body).mapError .wire
  let s := s.prune config now
  match ← s.openSkipped S body mac.bytes message.ciphertext with
  | some opened => return opened
  | none =>
    let s ← if !isHandshake && s.isNewRatchet message.ratchetKey then
        s.receiveStep S message.ratchetKey
      else pure s
    let (plaintext, s) ← s.openOnChain S config now body mac.bytes message
    return (plaintext, s.prune config now)

end EndToEnd.Session

import EndToEnd.Proofs.Refusal
import EndToEnd.Proofs.Words
import EndToEnd.Session.Ratchet

/-!
# What sealing does

Sealing readies the session, which takes a sending step if one is due, and then uses up one position
of the sending chain. Both parts are inverted here once, so that the laws above never open them
again.

Main statements:

- `readied_eq_ok`: a session is readied as it is, or by a step under a fresh key;
- `sealNext_eq_ok`: what one position of the sending chain is used for;
- `sealForPeer_eq_ok`: a sealed message is those two parts, perhaps inside a handshake message.
-/

namespace EndToEnd.Session

variable {S : Suite} {s mid after : Session} {env : Environment}
  {plaintext payload bytes : Bytes}

/-- A position of a chain is the last one, or has a next. -/
theorem nextIndex_eq_ok {index next : UInt32} :
    nextIndex index = .ok next ↔ next.toNat = index.toNat + 1 := by
  unfold nextIndex
  by_cases h : index = 0xffffffff
  · rw [if_pos h]
    constructor
    · intro hno
      exact nomatch hno
    · intro hnext
      have hle := Word.toNat_le_of_last h (b := next)
      omega
  · rw [if_neg h, ← Word.toNat_succ h]
    constructor
    · intro heq
      rw [Except.ok.inj heq]
    · intro heq
      rw [UInt32.toNat_inj.mp heq]

/-! ## The sending step -/

/-- The session after a sending step that agreed on a key. -/
def steppedToSend (S : Suite) (s : Session) (fresh : KeyPair) (shared : Key) : Session :=
  { s with
    root := (RootStep.next S s.root shared).root
    sendChain := some (RootStep.next S s.root shared).chain
    sendIndex := 0
    ratchet := some fresh
    stepPending := false }

/-- A sending step is an agreement of the fresh key pair. -/
theorem sendStep_eq_ok {fresh : KeyPair} {their : Key} :
    s.sendStep S fresh their = .ok after ↔
      ∃ shared, fresh.agree S their.bytes = .ok shared ∧
        after = s.steppedToSend S fresh shared := by
  constructor
  · intro h
    obtain ⟨shared, hshared, h⟩ := bind_eq_ok.mp h
    exact ⟨shared, mapError_eq_ok.mp hshared, (Except.ok.inj h).symm⟩
  · rintro ⟨shared, hshared, rfl⟩
    rw [sendStep, hshared]
    rfl

/-- The session on whose sending chain the next message is sealed, and the environment that is left
when it is ready. -/
def readied (S : Suite) (s : Session) (env : Environment) :
    Except SessionError Session × Environment :=
  match s.sendStepDue with
  | none => (.ok s, env)
  | some their => (s.sendStep S (env.drawKeyPair S).1 their, (env.drawKeyPair S).2)

/-- A session is ready as it is, or by the step that is due. -/
theorem readied_eq_ok :
    (s.readied S env).1 = .ok mid ↔
      (s.sendStepDue = none ∧ mid = s) ∨
      ∃ their shared, s.sendStepDue = some their ∧
        (env.drawKeyPair S).1.agree S their.bytes = .ok shared ∧
        mid = s.steppedToSend S (env.drawKeyPair S).1 shared := by
  unfold readied
  constructor
  · intro h
    cases hdue : s.sendStepDue with
    | none =>
      rw [hdue] at h
      exact .inl ⟨rfl, (Except.ok.inj h).symm⟩
    | some their =>
      rw [hdue] at h
      obtain ⟨shared, hshared, hmid⟩ := sendStep_eq_ok.mp h
      exact .inr ⟨their, shared, rfl, hshared, hmid⟩
  · rintro (⟨hdue, rfl⟩ | ⟨their, shared, hdue, hshared, rfl⟩)
    · rw [hdue]
    · rw [hdue]
      exact sendStep_eq_ok.mpr ⟨shared, hshared, rfl⟩

/-- A session that is ready to send has no step due. -/
theorem sendStepDue_readied (h : (s.readied S env).1 = .ok mid) : mid.sendStepDue = none := by
  rcases readied_eq_ok.mp h with ⟨hnone, rfl⟩ | ⟨their, shared, -, -, rfl⟩
  · exact hnone
  · rfl

/-- Sealing is readying the session, and then sealing in it. Either way the environment moves on as
far. -/
theorem sealMessage_eq (S : Suite) (s : Session) (plaintext : Bytes) (env : Environment) :
    s.sealMessage S plaintext env =
      ((s.readied S env).1 >>= (·.sealNext S plaintext), (s.readied S env).2) := by
  unfold sealMessage readied
  cases s.sendStepDue with
  | none => rfl
  | some their => rfl

/-! ## One position of the sending chain -/

/-- What sealing on a chain needs, and the session that it leaves. -/
theorem sealNext_eq_ok :
    s.sealNext S plaintext = .ok (payload, after) ↔
      ∃ chain pair next, s.sendChain = some chain ∧ s.ratchet = some pair ∧
        nextIndex s.sendIndex = .ok next ∧
        authenticated S (MessageKeys.ofKey S (messageKey S chain))
          (.current pair.publicKey.bytes s.sendIndex
            ((MessageKeys.ofKey S (messageKey S chain)).encrypt S plaintext)) = .ok payload ∧
        after = { s with sendChain := some (nextChainKey S chain), sendIndex := next } := by
  unfold sealNext ratchetPublic
  constructor
  · intro h
    split at h
    next chain ratchetKey hchain hkey =>
      obtain ⟨pair, hpair, rfl⟩ := Option.map_eq_some_iff.mp hkey
      obtain ⟨next, hnext, h⟩ := bind_eq_ok.mp h
      obtain ⟨payload', hpayload, h⟩ := bind_eq_ok.mp h
      obtain ⟨rfl, rfl⟩ := Prod.mk.inj (Except.ok.inj h)
      exact ⟨chain, pair, next, hchain, hpair, hnext, mapError_eq_ok.mp hpayload, rfl⟩
    next => exact nomatch h
  · rintro ⟨chain, pair, next, hchain, hpair, hnext, hpayload, rfl⟩
    simp only [hchain, hpair, Option.map_some, hnext, ok_bind, hpayload, mapError_ok]
    rfl

/-- Once a session is ready to send, it stays so while it only sends. -/
theorem sendStepDue_sealNext (hready : s.sendStepDue = none)
    (h : s.sealNext S plaintext = .ok (payload, after)) : after.sendStepDue = none := by
  obtain ⟨chain, pair, next, hchain, -, -, -, rfl⟩ := sealNext_eq_ok.mp h
  rw [sendStepDue, hchain] at hready
  exact hready

/-! ## Messages for the peer -/

/-- The bytes that carry a payload to the peer: itself, or a handshake message with the session's
three handshake keys, until the peer has answered. -/
def Carries (s : Session) (payload bytes : Bytes) : Prop :=
  if s.isEstablished then bytes = payload
  else ∃ identity ephemeral oneTime, s.identity = some identity ∧ s.ephemeral = some ephemeral ∧
    s.theirOneTime = some oneTime ∧
    (Wire.HandshakeMessage.current oneTime.bytes ephemeral.publicKey.bytes
      identity.publicKey.bytes payload).encode = .ok bytes

/-- What is sealed for a peer is sealed in the session once ready, and carried as its handshake
needs. -/
theorem sealForPeer_eq_ok :
    (s.sealForPeer S plaintext env).1 = .ok (bytes, after) ↔
      ∃ mid payload, (s.readied S env).1 = .ok mid ∧
        mid.sealNext S plaintext = .ok (payload, after) ∧ s.Carries payload bytes := by
  unfold sealForPeer Carries
  split
  next hest =>
    rw [sealMessage_eq, bind_eq_ok]
    exact ⟨fun ⟨mid, hmid, h⟩ => ⟨mid, bytes, hmid, h, rfl⟩,
      fun ⟨mid, payload, hmid, h, heq⟩ => ⟨mid, hmid, heq ▸ h⟩⟩
  next hest =>
    unfold sealHandshake
    constructor
    · intro h
      split at h
      next identity ephemeral oneTime hidentity hephemeral honeTime =>
        rw [sealMessage_eq] at h
        obtain ⟨⟨payload, after'⟩, hsealed, h⟩ := bind_eq_ok.mp h
        obtain ⟨mid, hmid, hnext⟩ := bind_eq_ok.mp hsealed
        obtain ⟨bytes', hbytes, h⟩ := bind_eq_ok.mp h
        obtain ⟨rfl, rfl⟩ := Prod.mk.inj (Except.ok.inj h)
        exact ⟨mid, payload, hmid, hnext, identity, ephemeral, oneTime, hidentity, hephemeral,
          honeTime, mapError_eq_ok.mp hbytes⟩
      next => exact nomatch h
    · rintro ⟨mid, payload, hmid, hnext, identity, ephemeral, oneTime, hidentity, hephemeral,
        honeTime, hbytes⟩
      simp only [hidentity, hephemeral, honeTime, sealMessage_eq, hmid, ok_bind, hnext, hbytes,
        mapError_ok]
      rfl

/-- Sealing touches the root and what sending needs, and nothing else. -/
theorem sealForPeer_frame (h : (s.sealForPeer S plaintext env).1 = .ok (bytes, after)) :
    after = { s with
      ratchet := after.ratchet
      root := after.root
      sendChain := after.sendChain
      sendIndex := after.sendIndex
      stepPending := after.stepPending } := by
  obtain ⟨mid, payload, hmid, hnext, -⟩ := sealForPeer_eq_ok.mp h
  obtain ⟨chain, pair, next, -, -, -, -, rfl⟩ := sealNext_eq_ok.mp hnext
  rcases readied_eq_ok.mp hmid with ⟨-, rfl⟩ | ⟨their, shared, -, -, rfl⟩ <;> rfl

/-- The ratchet key changes exactly by a step. -/
theorem sealForPeer_ratchet (h : (s.sealForPeer S plaintext env).1 = .ok (bytes, after)) :
    after.ratchet = if s.sendStepDue.isSome then some (env.drawKeyPair S).1 else s.ratchet := by
  obtain ⟨mid, payload, hmid, hnext, -⟩ := sealForPeer_eq_ok.mp h
  obtain ⟨chain, pair, next, -, -, -, -, rfl⟩ := sealNext_eq_ok.mp hnext
  rcases readied_eq_ok.mp hmid with ⟨hready, rfl⟩ | ⟨their, shared, hdue, -, rfl⟩
  · rw [hready]
    rfl
  · rw [hdue]
    rfl

end EndToEnd.Session

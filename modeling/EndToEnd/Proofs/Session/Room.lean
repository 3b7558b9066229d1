import EndToEnd.Proofs.Primitive.Chaining
import EndToEnd.Proofs.Primitive.LowOrder
import EndToEnd.Proofs.Session.Sealing
import EndToEnd.Proofs.Wire.Canonical

/-!
# When a session can seal

Whether a session can seal for its peer is in the session: who it is addressed to, what it seals
with, and how many positions its chain has left. No randomness changes that. Sealing leaves a
session that can seal, with one position less.

Main statements:

- `exists_sealForPeer`: a session that can seal, and has room, seals every key;
- `canSeal_of_sealForPeer`: one that has sealed could;
- `canSeal_after`: and still can, with less room.
-/

namespace EndToEnd.Session

variable {S : Suite} {s mid after : Session} {env : Environment} {plaintext bytes : Bytes}

/-- What sealing needs of a session besides a position to seal at. -/
structure CanSeal (S : Suite) (s : Session) : Prop where
  /-- The peer has answered, or the keys that handshake messages repeat are there. -/
  addressed : s.isEstablished = true ∨
    s.identity.isSome ∧ s.ephemeral.isSome ∧ s.theirOneTime.isSome
  /-- If a step is due, every fresh key agrees with the peer's. -/
  step : ∀ their, s.sendStepDue = some their → S.Contributes their
  /-- If none is due, there is a chain. -/
  chain : s.sendStepDue = none → s.sendChain.isSome ∧ s.ratchet.isSome

/-- How many messages can be sealed before the peer has to answer: as many as the chain has positions
left, or a new one has, if a step is due. The last position of a chain is never used. -/
def room (s : Session) : Nat :=
  UInt32.size - 1 - if s.sendStepDue.isSome then 0 else s.sendIndex.toNat

theorem room_of_none (h : s.sendStepDue = none) : s.room = UInt32.size - 1 - s.sendIndex.toNat := by
  rw [room, h]
  rfl

theorem room_of_some {their : Key} (h : s.sendStepDue = some their) :
    s.room = UInt32.size - 1 := by
  rw [room, h]
  rfl

/-! ## Sessions that can seal -/

/-- The position of a chain with room has a next. -/
theorem exists_nextIndex {index : UInt32} (h : 0 < UInt32.size - 1 - index.toNat) :
    ∃ next, nextIndex index = .ok next := by
  have hlt : index.toNat + 1 < UInt32.size := by omega
  exact ⟨.ofNat (index.toNat + 1), nextIndex_eq_ok.mpr (UInt32.toNat_ofNat_of_lt' hlt)⟩

/-- A session that can seal is readied to one with a chain, and with the same room. -/
theorem CanSeal.exists_readied (h : s.CanSeal S) (env : Environment) :
    ∃ mid, (s.readied S env).1 = .ok mid ∧ mid.sendChain.isSome ∧ mid.ratchet.isSome ∧
      s.room = UInt32.size - 1 - mid.sendIndex.toNat := by
  cases hdue : s.sendStepDue with
  | none =>
    obtain ⟨hchain, hratchet⟩ := h.chain hdue
    exact ⟨s, readied_eq_ok.mpr (.inl ⟨hdue, rfl⟩), hchain, hratchet, room_of_none hdue⟩
  | some their =>
    obtain ⟨shared, hshared⟩ : ∃ shared, (env.drawKeyPair S).1.agree S their.bytes = .ok shared :=
      KeyPair.agree_of_contributes rfl (h.step their hdue)
    exact ⟨_, readied_eq_ok.mpr (.inr ⟨their, shared, hdue, hshared, rfl⟩), rfl, rfl,
      room_of_some hdue⟩

/-- A message under a ratchet key takes 56 bytes more than its ciphertext, with its authenticator. It
is written if the ciphertext fits its field. -/
theorem authenticated_of_fits (keys : MessageKeys) (ratchetKey : Key) (index : UInt32)
    {ciphertext : Bytes} (hfits : ciphertext.length ≤ Wire.maxFieldSize) :
    ∃ payload, authenticated S keys (.current ratchetKey.bytes index ciphertext) = .ok payload ∧
      payload.length = ciphertext.length + 56 := by
  obtain ⟨body, hbody⟩ := (Wire.RatchetMessage.exists_encode_iff
    (m := .current ratchetKey.bytes index ciphertext)).mpr
    ⟨Nat.le_trans (Nat.le_of_eq ratchetKey.length_eq) (by decide), hfits⟩
  refine ⟨body ++ (keys.mac S body).bytes, by rw [authenticated, hbody]; rfl, ?_⟩
  rw [List.length_append, Wire.RatchetMessage.length_of_encode hbody, Octets.length_eq]
  simp only [Wire.RatchetMessage.encodedLength, Wire.RatchetMessage.current, Octets.length_eq]
  omega

/-- A key makes a payload of 104 bytes. -/
theorem exists_authenticated (keys : MessageKeys) (ratchetKey key : Key) (index : UInt32) :
    ∃ payload, authenticated S keys (.current ratchetKey.bytes index (keys.encrypt S key.bytes)) =
      .ok payload ∧ payload.length = 104 := by
  have hcipher : (keys.encrypt S key.bytes).length = 48 := by
    rw [MessageKeys.encrypt, Suite.length_encryptWith, key.length_eq]
  have hfits : (keys.encrypt S key.bytes).length ≤ Wire.maxFieldSize := by
    rw [hcipher]
    decide
  obtain ⟨payload, hpayload, hlength⟩ := authenticated_of_fits keys ratchetKey index hfits
  exact ⟨payload, hpayload, by rw [hlength, hcipher]⟩

/-- A key is sealed at every position that has a next. -/
theorem exists_sealNext (hchain : mid.sendChain.isSome) (hratchet : mid.ratchet.isSome)
    (hroom : 0 < UInt32.size - 1 - mid.sendIndex.toNat) (key : Key) :
    ∃ payload after, mid.sealNext S key.bytes = .ok (payload, after) ∧ payload.length = 104 := by
  obtain ⟨chain, hchain⟩ := Option.isSome_iff_exists.mp hchain
  obtain ⟨pair, hratchet⟩ := Option.isSome_iff_exists.mp hratchet
  obtain ⟨next, hnext⟩ := exists_nextIndex hroom
  obtain ⟨payload, hpayload, hlength⟩ := exists_authenticated (S := S)
    (MessageKeys.ofKey S (messageKey S chain)) pair.publicKey key mid.sendIndex
  exact ⟨payload, _,
    sealNext_eq_ok.mpr ⟨chain, pair, next, hchain, hratchet, hnext, hpayload, rfl⟩, hlength⟩

/-- A short payload is carried by a session that can seal. -/
theorem CanSeal.exists_carries (h : s.CanSeal S) {payload : Bytes} (hshort : payload.length = 104) :
    ∃ bytes, s.Carries payload bytes := by
  unfold Carries
  split
  next => exact ⟨payload, rfl⟩
  next hest =>
    obtain ⟨hidentity, hephemeral, honeTime⟩ := h.addressed.resolve_left hest
    obtain ⟨identity, hidentity⟩ := Option.isSome_iff_exists.mp hidentity
    obtain ⟨ephemeral, hephemeral⟩ := Option.isSome_iff_exists.mp hephemeral
    obtain ⟨oneTime, honeTime⟩ := Option.isSome_iff_exists.mp honeTime
    have hkey (key : Key) : key.bytes.length ≤ Wire.maxFieldSize :=
      Nat.le_trans (Nat.le_of_eq key.length_eq) (by decide)
    obtain ⟨bytes, hbytes⟩ := (Wire.HandshakeMessage.exists_encode_iff (m := .current oneTime.bytes
      ephemeral.publicKey.bytes identity.publicKey.bytes payload)).mpr
      ⟨hkey _, hkey _, hkey _, Nat.le_trans (Nat.le_of_eq hshort) (by decide)⟩
    exact ⟨bytes, identity, ephemeral, oneTime, hidentity, hephemeral, honeTime, hbytes⟩

/-- A session that can seal, and has room, seals every key in every environment. -/
theorem CanSeal.exists_sealForPeer (h : s.CanSeal S) (hroom : 0 < s.room) (key : Key)
    (env : Environment) :
    ∃ bytes after, (s.sealForPeer S key.bytes env).1 = .ok (bytes, after) := by
  obtain ⟨mid, hmid, hchain, hratchet, hsame⟩ := h.exists_readied env
  obtain ⟨payload, after, hsealed, hshort⟩ :=
    exists_sealNext (S := S) hchain hratchet (hsame ▸ hroom) key
  obtain ⟨bytes, hcarries⟩ := h.exists_carries hshort
  exact ⟨bytes, after, sealForPeer_eq_ok.mpr ⟨mid, payload, hmid, hsealed, hcarries⟩⟩

/-! ## Sessions that have sealed -/

/-- What carries a payload is addressed. -/
theorem addressed_of_carries {payload : Bytes} (h : s.Carries payload bytes) :
    s.isEstablished = true ∨ s.identity.isSome ∧ s.ephemeral.isSome ∧ s.theirOneTime.isSome := by
  unfold Carries at h
  split at h
  next hest => exact .inl hest
  next =>
    obtain ⟨identity, ephemeral, oneTime, hidentity, hephemeral, honeTime, -⟩ := h
    exact .inr ⟨Option.isSome_iff_exists.mpr ⟨_, hidentity⟩,
      Option.isSome_iff_exists.mpr ⟨_, hephemeral⟩, Option.isSome_iff_exists.mpr ⟨_, honeTime⟩⟩

/-- A session that has sealed could. -/
theorem canSeal_of_sealForPeer (hS : S.RefusesByPublicKey)
    (h : (s.sealForPeer S plaintext env).1 = .ok (bytes, after)) : s.CanSeal S := by
  obtain ⟨mid, payload, hmid, hnext, hcarries⟩ := sealForPeer_eq_ok.mp h
  obtain ⟨chain, pair, next, hchain, hpair, -⟩ := sealNext_eq_ok.mp hnext
  refine ⟨addressed_of_carries hcarries, fun their hdue => ?_, fun hnone => ?_⟩ <;>
    rcases readied_eq_ok.mp hmid with ⟨hready, rfl⟩ | ⟨their', shared, hdue', hshared, rfl⟩
  · exact nomatch hready.symm.trans hdue
  · obtain rfl := Option.some.inj (hdue'.symm.trans hdue)
    exact KeyPair.contributes_of_agree hS hshared
  · exact ⟨Option.isSome_iff_exists.mpr ⟨_, hchain⟩, Option.isSome_iff_exists.mpr ⟨_, hpair⟩⟩
  · exact nomatch hnone.symm.trans hdue'

/-- Sealing leaves a session that can seal, and takes one position of its room. -/
theorem canSeal_after (h : (s.sealForPeer S plaintext env).1 = .ok (bytes, after)) :
    after.CanSeal S ∧ after.room + 1 = s.room := by
  have hframe := sealForPeer_frame h
  obtain ⟨mid, payload, hmid, hnext, hcarries⟩ := sealForPeer_eq_ok.mp h
  have hready := sendStepDue_sealNext (sendStepDue_readied hmid) hnext
  obtain ⟨chain, pair, next, hchain, hpair, hindex, -, rfl⟩ := sealNext_eq_ok.mp hnext
  constructor
  · refine ⟨?_, fun their hdue => (nomatch hready.symm.trans hdue),
      fun _ => ⟨rfl, Option.isSome_iff_exists.mpr ⟨_, hpair⟩⟩⟩
    rw [hframe]
    exact addressed_of_carries hcarries
  · have hnext := nextIndex_eq_ok.mp hindex
    have hlt := next.toNat_lt
    have hroom : s.room = UInt32.size - 1 - mid.sendIndex.toNat := by
      rcases readied_eq_ok.mp hmid with ⟨hnone, rfl⟩ | ⟨their, shared, hdue, -, rfl⟩
      · exact room_of_none hnone
      · exact room_of_some hdue
    rw [room_of_none hready, hroom]
    show UInt32.size - 1 - next.toNat + 1 = _
    have hsize : UInt32.size = 4294967296 := rfl
    omega

/-! ## Fresh sessions -/

variable {secret : Bytes} {identity ephemeral ratchet : KeyPair} {theirOneTime : Key}

/-- The side that starts a handshake can seal, before the peer has answered. -/
theorem canSeal_initiator :
    (initiator S secret identity ephemeral theirOneTime ratchet).CanSeal S :=
  ⟨.inr ⟨rfl, rfl, rfl⟩, nofun, fun _ => ⟨rfl, rfl⟩⟩

theorem room_initiator :
    (initiator S secret identity ephemeral theirOneTime ratchet).room = UInt32.size - 1 := rfl

end EndToEnd.Session

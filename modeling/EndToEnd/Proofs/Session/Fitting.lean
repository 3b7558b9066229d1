import EndToEnd.Proofs.Session.Keeping

/-!
# What fits into a message

A field of a message holds at most a mebibyte, and what is sealed is in one field or in two: its
ciphertext is a field of the ratchet message, and that message with its authenticator is a field of
the handshake message around it. The writers check their fields one after the other, so the innermost
field that is too long is the one that is named.

Whatever passes the writers passes the readers, which have the same limit: what comes out on the other
side is the message that was sealed.

Main statements:

- `sealMessage_of_ready_iff`, `sealHandshake_of_ready_iff`: how long a plaintext can be;
- `sealMessage_readsAs`, `sealHandshake_readsAs`: what is read of a sealed message;
- `sealed_fits`: the two together, for every session that is reached.
-/

namespace EndToEnd

namespace Wire

variable {part : Part} {content : Bytes}

/-- A field that is too long is refused, with its length and the limit. -/
theorem writeString_of_long (h : maxFieldSize < content.length) :
    writeString part content = .error (.tooLarge part content.length maxFieldSize) := by
  rw [writeString, if_neg (Nat.not_le.mpr h)]

/-- A key fits every field. -/
theorem exists_writeString_key (part : Part) (key : Key) :
    ∃ field, writeString part key.bytes = .ok field := by
  have hfits : key.bytes.length ≤ maxFieldSize := by
    rw [key.length_eq]
    decide
  exact ⟨_, writeString_eq_ok.mpr ⟨hfits, rfl⟩⟩

theorem RatchetMessage.encode_of_long (ratchetKey : Key) (index : UInt32) {ciphertext : Bytes}
    (h : maxFieldSize < ciphertext.length) :
    (RatchetMessage.current ratchetKey.bytes index ciphertext).encode =
      .error (.tooLarge .ciphertext ciphertext.length maxFieldSize) := by
  obtain ⟨field, hfield⟩ := exists_writeString_key .ratchetKey ratchetKey
  simp only [encode, current, hfield, ok_bind, writeString_of_long h, error_bind]

/-- A handshake message is refused if the message inside is too long. -/
theorem HandshakeMessage.encode_of_long (oneTime base identity : Key) {message : Bytes}
    (h : maxFieldSize < message.length) :
    (HandshakeMessage.current oneTime.bytes base.bytes identity.bytes message).encode =
      .error (.tooLarge .message message.length maxFieldSize) := by
  obtain ⟨oneTimeField, honeTime⟩ := exists_writeString_key .oneTimeKey oneTime
  obtain ⟨baseField, hbase⟩ := exists_writeString_key .baseKey base
  obtain ⟨identityField, hidentity⟩ := exists_writeString_key .identityKey identity
  simp only [encode, current, honeTime, hbase, hidentity, ok_bind, writeString_of_long h, error_bind]

end Wire

namespace Session

variable {S : Suite} {s mid after : Session} {env : Environment} {plaintext payload bytes : Bytes}
  {first : Option Key} {identity ephemeral : KeyPair} {oneTime : Key}

/-! ## Sessions that are ready -/

/-- The session has a chain to seal with, a ratchet key that names it, and a position on it. -/
structure Ready (mid : Session) : Prop where
  sendChain : mid.sendChain.isSome
  ratchet : mid.ratchet.isSome
  next : ∃ next, nextIndex mid.sendIndex = .ok next

/-- A session that is reached has the keys of its side. -/
theorem Reached.shaped (h : Reached S first s) : s.Shaped := by
  obtain ⟨start, hstart, hrun⟩ := h
  exact (shaped_run hstart.shaped.1 hrun).1

/-- A session that is reached is readied, if the agreement of the step that is due succeeds and the
chain that is there without one is not at its end. -/
theorem Reached.exists_ready (h : Reached S first s)
    (hstep : ∀ their, s.sendStepDue = some their →
      ∃ shared, (env.drawKeyPair S).1.agree S their.bytes = .ok shared)
    (hindex : s.sendStepDue = none → s.sendIndex.toNat < 4294967295) :
    ∃ mid, (s.readied S env).1 = .ok mid ∧ mid.Ready := by
  cases hdue : s.sendStepDue with
  | none =>
    have hmid : (s.readied S env).1 = .ok s := readied_eq_ok.mpr (.inl ⟨hdue, rfl⟩)
    obtain ⟨hchain, hratchet⟩ := h.shaped.of_readied hmid
    exact ⟨s, hmid, hchain, hratchet, exists_nextIndex (Nat.sub_pos_of_lt (hindex hdue))⟩
  | some their =>
    obtain ⟨shared, hshared⟩ := hstep their hdue
    exact ⟨_, readied_eq_ok.mpr (.inr ⟨their, shared, hdue, hshared, rfl⟩), rfl, rfl, 1, rfl⟩

/-! ## Messages of their own -/

/-- A padding makes whole blocks, one more than there are full ones. -/
theorem length_ciphertext (keys : MessageKeys) (plaintext : Bytes) :
    (keys.encrypt S plaintext).length = 16 * (plaintext.length / 16 + 1) :=
  Suite.length_encryptWith S _ _ plaintext

/-- What a session needs to seal, named. -/
theorem Ready.exists_parts (h : mid.Ready) :
    ∃ chain pair next, mid.sendChain = some chain ∧ mid.ratchet = some pair ∧
      nextIndex mid.sendIndex = .ok next := by
  obtain ⟨chain, hchain⟩ := Option.isSome_iff_exists.mp h.sendChain
  obtain ⟨pair, hpair⟩ := Option.isSome_iff_exists.mp h.ratchet
  obtain ⟨next, hnext⟩ := h.next
  exact ⟨chain, pair, next, hchain, hpair, hnext⟩

/-- A ready session seals what fits. -/
theorem Ready.sealNext_of_fits (h : mid.Ready)
    (hfits : 16 * (plaintext.length / 16 + 1) ≤ Wire.maxFieldSize) :
    ∃ payload after, mid.sealNext S plaintext = .ok (payload, after) ∧
      payload.length = 16 * (plaintext.length / 16 + 1) + 56 := by
  obtain ⟨chain, pair, next, hchain, hpair, hnext⟩ := h.exists_parts
  have hlength := length_ciphertext (S := S) (MessageKeys.ofKey S (messageKey S chain)) plaintext
  obtain ⟨payload, hpayload, hlong⟩ := authenticated_of_fits (S := S)
    (MessageKeys.ofKey S (messageKey S chain)) pair.publicKey mid.sendIndex (hlength ▸ hfits)
  rw [hlength] at hlong
  exact ⟨payload, _, sealNext_eq_ok.mpr ⟨chain, pair, next, hchain, hpair, hnext, hpayload, rfl⟩,
    hlong⟩

/-- Of a plaintext that is too long the ciphertext is refused. -/
theorem Ready.sealNext_of_long (h : mid.Ready)
    (hlong : Wire.maxFieldSize < 16 * (plaintext.length / 16 + 1)) :
    mid.sealNext S plaintext = .error (.wire
      (.tooLarge .ciphertext (16 * (plaintext.length / 16 + 1)) Wire.maxFieldSize)) := by
  obtain ⟨chain, pair, next, hchain, hpair, hnext⟩ := h.exists_parts
  have hlength := length_ciphertext (S := S) (MessageKeys.ofKey S (messageKey S chain)) plaintext
  have hrefused := Wire.RatchetMessage.encode_of_long pair.publicKey mid.sendIndex
    (hlength ▸ hlong)
  rw [hlength] at hrefused
  simp only [sealNext, hchain, ratchetPublic, hpair, Option.map_some, hnext, ok_bind, authenticated,
    hrefused, error_bind, mapError_error]

theorem sealMessage_of_ready (hmid : (s.readied S env).1 = .ok mid) :
    (s.sealMessage S plaintext env).1 = mid.sealNext S plaintext := by
  rw [sealMessage_eq, hmid, ok_bind]

/-- A message of its own can hold a plaintext exactly if its ciphertext fits. -/
theorem sealMessage_of_ready_iff (hmid : (s.readied S env).1 = .ok mid) (h : mid.Ready) :
    (∃ payload after, (s.sealMessage S plaintext env).1 = .ok (payload, after)) ↔
      16 * (plaintext.length / 16 + 1) ≤ Wire.maxFieldSize := by
  rw [sealMessage_of_ready hmid]
  constructor
  · rintro ⟨payload, after, hsealed⟩
    by_contra hlong
    rw [h.sealNext_of_long (Nat.lt_of_not_le hlong)] at hsealed
    exact nomatch hsealed
  · intro hfits
    obtain ⟨payload, after, hsealed, -⟩ := h.sealNext_of_fits (S := S) hfits
    exact ⟨payload, after, hsealed⟩

/-! ## Messages inside handshake messages -/

/-- On the side that started the handshake, its message is the sealed one with the keys of the
handshake. -/
theorem sealHandshake_eq (hidentity : s.identity = some identity)
    (hephemeral : s.ephemeral = some ephemeral) (honeTime : s.theirOneTime = some oneTime) :
    (s.sealHandshake S plaintext env).1 = (do
      let (payload, after) ← (s.sealMessage S plaintext env).1
      let bytes ← (Wire.HandshakeMessage.current oneTime.bytes ephemeral.publicKey.bytes
        identity.publicKey.bytes payload).encode.mapError .wire
      return (bytes, after)) := by
  simp only [sealHandshake, hidentity, hephemeral, honeTime]

/-- A plaintext that is too long is refused for its ciphertext, or for the message around that. -/
theorem Ready.sealHandshake_of_long (h : mid.Ready) (hmid : (s.readied S env).1 = .ok mid)
    (hkeys : ∃ identity ephemeral oneTime, s.identity = some identity ∧
      s.ephemeral = some ephemeral ∧ s.theirOneTime = some oneTime)
    (hlong : Wire.maxFieldSize < 16 * (plaintext.length / 16 + 1) + 56) :
    (s.sealHandshake S plaintext env).1 = .error (.wire
      (if 16 * (plaintext.length / 16 + 1) ≤ Wire.maxFieldSize then
        .tooLarge .message (16 * (plaintext.length / 16 + 1) + 56) Wire.maxFieldSize
      else .tooLarge .ciphertext (16 * (plaintext.length / 16 + 1)) Wire.maxFieldSize)) := by
  obtain ⟨identity, ephemeral, oneTime, hidentity, hephemeral, honeTime⟩ := hkeys
  rw [sealHandshake_eq hidentity hephemeral honeTime, sealMessage_of_ready hmid]
  by_cases hfits : 16 * (plaintext.length / 16 + 1) ≤ Wire.maxFieldSize
  · obtain ⟨payload, after, hsealed, hlength⟩ := h.sealNext_of_fits (S := S) hfits
    have hrefused := Wire.HandshakeMessage.encode_of_long oneTime ephemeral.publicKey
      identity.publicKey (hlength ▸ hlong)
    rw [hlength] at hrefused
    simp only [hsealed, ok_bind, hrefused, mapError_error, error_bind, if_pos hfits]
  · rw [h.sealNext_of_long (Nat.lt_of_not_le hfits), error_bind, if_neg hfits]

/-- A handshake message can hold a plaintext exactly if the ratchet message inside it fits, with its
authenticator. -/
theorem sealHandshake_of_ready_iff (hmid : (s.readied S env).1 = .ok mid) (h : mid.Ready)
    (hkeys : ∃ identity ephemeral oneTime, s.identity = some identity ∧
      s.ephemeral = some ephemeral ∧ s.theirOneTime = some oneTime) :
    (∃ bytes after, (s.sealHandshake S plaintext env).1 = .ok (bytes, after)) ↔
      16 * (plaintext.length / 16 + 1) + 56 ≤ Wire.maxFieldSize := by
  constructor
  · rintro ⟨bytes, after, hsealed⟩
    by_contra hlong
    rw [h.sealHandshake_of_long hmid hkeys (Nat.lt_of_not_le hlong)] at hsealed
    exact nomatch hsealed
  · intro hfits
    obtain ⟨identity, ephemeral, oneTime, hidentity, hephemeral, honeTime⟩ := hkeys
    have hinner : 16 * (plaintext.length / 16 + 1) ≤ Wire.maxFieldSize :=
      Nat.le_of_add_right_le hfits
    obtain ⟨payload, after, hsealed, hlength⟩ := h.sealNext_of_fits (S := S) hinner
    have hkey (key : Key) : key.bytes.length ≤ Wire.maxFieldSize := by
      rw [key.length_eq]
      decide
    obtain ⟨bytes, hbytes⟩ := (Wire.HandshakeMessage.exists_encode_iff (m := .current oneTime.bytes
      ephemeral.publicKey.bytes identity.publicKey.bytes payload)).mpr
      ⟨hkey _, hkey _, hkey _, hlength ▸ hfits⟩
    refine ⟨bytes, after, ?_⟩
    rw [sealHandshake_eq hidentity hephemeral honeTime, sealMessage_of_ready hmid, hsealed, ok_bind]
    simp only [hbytes, mapError_ok, ok_bind]
    rfl

/-! ## What is read of a sealed message -/

/-- A payload is cut and read as what was sealed: a message at a position of a chain that a ratchet
key names, with the ciphertext of the plaintext, and its authenticator. -/
def ReadsAs (S : Suite) (chain ratchetKey : Key) (index : UInt32) (plaintext payload : Bytes) :
    Prop :=
  ∃ body, Wire.splitMac payload =
      .ok (body, (MessageKeys.ofKey S (messageKey S chain)).mac S body) ∧
    Wire.RatchetMessage.decode body = .ok (.current ratchetKey.bytes index
      ((MessageKeys.ofKey S (messageKey S chain)).encrypt S plaintext))

/-- A sealed message is read as what it was sealed from, by the session that was ready for it. -/
theorem sealMessage_readsAs (h : (s.sealMessage S plaintext env).1 = .ok (payload, after)) :
    ∃ mid chain pair, (s.readied S env).1 = .ok mid ∧ mid.sendChain = some chain ∧
      mid.ratchet = some pair ∧ ReadsAs S chain pair.publicKey mid.sendIndex plaintext payload := by
  obtain ⟨mid, hmid, hnext⟩ := sealMessage_eq_ok.mp h
  obtain ⟨chain, pair, next, hchain, hpair, -, hpayload, -⟩ := sealNext_eq_ok.mp hnext
  obtain ⟨body, hbody, hpayload⟩ := bind_eq_ok.mp hpayload
  obtain rfl := Except.ok.inj hpayload
  exact ⟨mid, chain, pair, hmid, hchain, hpair, body, Wire.splitMac_append _ _,
    Wire.RatchetMessage.decode_encode rfl hbody⟩

/-- A handshake message is read as the keys of the session around a message that was sealed. -/
theorem sealHandshake_readsAs (h : (s.sealHandshake S plaintext env).1 = .ok (bytes, after)) :
    ∃ identity ephemeral oneTime payload, s.identity = some identity ∧
      s.ephemeral = some ephemeral ∧ s.theirOneTime = some oneTime ∧
      Wire.HandshakeMessage.decode bytes = .ok (.current oneTime.bytes ephemeral.publicKey.bytes
        identity.publicKey.bytes payload) ∧
      (s.sealMessage S plaintext env).1 = .ok (payload, after) := by
  unfold sealHandshake at h
  split at h
  next identity ephemeral oneTime hidentity hephemeral honeTime =>
    obtain ⟨⟨payload, after'⟩, hsealed, h⟩ := bind_eq_ok.mp h
    obtain ⟨bytes', hbytes, h⟩ := bind_eq_ok.mp h
    obtain ⟨rfl, rfl⟩ := Prod.mk.inj (Except.ok.inj h)
    exact ⟨identity, ephemeral, oneTime, payload, hidentity, hephemeral, honeTime,
      Wire.HandshakeMessage.decode_encode rfl (mapError_eq_ok.mp hbytes), hsealed⟩
  next => exact nomatch h

/-- A session that is reached, and is ready to send, seals a plaintext exactly if its ciphertext fits
a field, and inside a handshake message exactly if that does with 56 bytes more. Otherwise the field
that is too long is named, and the session is as it was. What is sealed is read as it was sealed. -/
theorem sealed_fits (hreached : Reached S first s)
    (hstep : ∀ their, s.sendStepDue = some their →
      ∃ shared, (env.drawKeyPair S).1.agree S their.bytes = .ok shared)
    (hindex : s.sendStepDue = none → s.sendIndex.toNat < 4294967295) (plaintext : Bytes) :
    let c := 16 * (plaintext.length / 16 + 1)
    let limit := Wire.maxFieldSize
    (((∃ payload after, (s.sealMessage S plaintext env).1 = .ok (payload, after)) ↔ c ≤ limit) ∧
      (limit < c →
        (s.sealMessage S plaintext env).1 = .error (.wire (.tooLarge .ciphertext c limit)) ∧
        s.perform S (.send false plaintext env) = s)) ∧
    (s.isInitiator = true →
      ((∃ bytes after, (s.sealHandshake S plaintext env).1 = .ok (bytes, after)) ↔
        c + 56 ≤ limit) ∧
      (limit < c + 56 →
        (s.sealHandshake S plaintext env).1 = .error (.wire (if c ≤ limit then
          .tooLarge .message (c + 56) limit else .tooLarge .ciphertext c limit)) ∧
        s.perform S (.send true plaintext env) = s)) ∧
    (∀ payload after, (s.sealMessage S plaintext env).1 = .ok (payload, after) →
      ∃ mid chain pair, (s.readied S env).1 = .ok mid ∧ mid.sendChain = some chain ∧
        mid.ratchet = some pair ∧ ReadsAs S chain pair.publicKey mid.sendIndex plaintext payload) ∧
    ∀ bytes after, (s.sealHandshake S plaintext env).1 = .ok (bytes, after) →
      ∃ identity ephemeral oneTime payload, s.identity = some identity ∧
        s.ephemeral = some ephemeral ∧ s.theirOneTime = some oneTime ∧
        Wire.HandshakeMessage.decode bytes = .ok (.current oneTime.bytes ephemeral.publicKey.bytes
          identity.publicKey.bytes payload) ∧
        ∃ mid chain pair, (s.readied S env).1 = .ok mid ∧ mid.sendChain = some chain ∧
          mid.ratchet = some pair ∧
          ReadsAs S chain pair.publicKey mid.sendIndex plaintext payload := by
  intro c limit
  -- both hypotheses go into this: a session that is ready can be refused for lengths alone
  obtain ⟨mid, hmid, hready⟩ := hreached.exists_ready hstep hindex
  refine ⟨⟨sealMessage_of_ready_iff hmid hready, ?_⟩, ?_, fun _ _ => sealMessage_readsAs, ?_⟩
  · intro hlong
    have hrefused := (sealMessage_of_ready hmid).trans (hready.sealNext_of_long (S := S) hlong)
    refine ⟨hrefused, ?_⟩
    show s.settled (s.sealMessage S plaintext env).1 = s
    rw [hrefused, settled]
  · intro hside
    have hkeys := hreached.shaped.exists_keys hside
    refine ⟨sealHandshake_of_ready_iff hmid hready hkeys, ?_⟩
    intro hlong
    have hrefused := hready.sealHandshake_of_long hmid hkeys hlong
    refine ⟨hrefused, ?_⟩
    show s.settled (s.sealHandshake S plaintext env).1 = s
    rw [hrefused, settled]
  · intro bytes after hsealed
    obtain ⟨identity, ephemeral, oneTime, payload, hidentity, hephemeral, honeTime, hdecode,
      hpayload⟩ := sealHandshake_readsAs hsealed
    exact ⟨identity, ephemeral, oneTime, payload, hidentity, hephemeral, honeTime, hdecode,
      sealMessage_readsAs hpayload⟩

/-- The longest plaintexts on the plain suite, and the next ones: by the side that starts a handshake,
in a message of its own and inside a handshake message, and by the side that answers, which takes a
step first. -/
theorem sealed_fits_longest :
    (∃ bytes after,
      (plainStart.sealMessage .plain (.replicate 1048575 0) (.ofSeed 0)).1 = .ok (bytes, after)) ∧
    (plainStart.sealMessage .plain (.replicate 1048576 0) (.ofSeed 0)).1 =
      .error (.wire (.tooLarge .ciphertext 1048592 1048576)) ∧
    (∃ bytes after,
      (plainStart.sealHandshake .plain (.replicate 1048511 0) (.ofSeed 0)).1 = .ok (bytes, after)) ∧
    (plainStart.sealHandshake .plain (.replicate 1048512 0) (.ofSeed 0)).1 =
      .error (.wire (.tooLarge .message 1048584 1048576)) ∧
    ∃ s, responder .plain [] (Octets.replicate 32 4).bytes = .ok s ∧ s.sendStepDue.isSome ∧
      ∃ bytes after,
        (s.sealMessage .plain (.replicate 1048575 0) (.ofSeed 0)).1 = .ok (bytes, after) := by
  have hstart : Reached .plain none plainStart := Starts.initiator.reached
  have hnone : plainStart.sendStepDue = none := rfl
  have hstep (their : Key) (hdue : plainStart.sendStepDue = some their) :
      ∃ shared, ((Environment.ofSeed 0).drawKeyPair .plain).1.agree .plain their.bytes = .ok shared :=
    nomatch hnone.symm.trans hdue
  have hfits := sealed_fits hstart hstep (fun _ => by decide)
  refine ⟨?_, ?_, ?_, ?_, ?_⟩
  · refine (hfits (.replicate 1048575 0)).1.1.mpr ?_
    rw [List.length_replicate]
    decide
  · have hlong := ((hfits (.replicate 1048576 0)).1.2 ?_).1
    · rw [List.length_replicate] at hlong
      exact hlong
    · rw [List.length_replicate]
      decide
  · refine ((hfits (.replicate 1048511 0)).2.1 rfl).1.mpr ?_
    rw [List.length_replicate]
    decide
  · have hlong := (((hfits (.replicate 1048512 0)).2.1 rfl).2 ?_).1
    · rw [List.length_replicate, if_pos (by decide)] at hlong
      exact hlong
    · rw [List.length_replicate]
      decide
  · obtain ⟨s, hs, hdue⟩ : ∃ s, responder .plain [] (Octets.replicate 32 4).bytes = .ok s ∧
        s.sendStepDue.isSome := by
      decide +kernel
    have hstep (their : Key) (_ : s.sendStepDue = some their) :
        ∃ shared,
          ((Environment.ofSeed 0).drawKeyPair .plain).1.agree .plain their.bytes = .ok shared :=
      KeyPair.agree_of_contributes rfl fun _ => rfl
    have hnotNone (hnone : s.sendStepDue = none) : s.sendIndex.toNat < 4294967295 := by
      rw [hnone] at hdue
      exact nomatch hdue
    have hfits := sealed_fits (Starts.responder hs).reached hstep hnotNone (.replicate 1048575 0)
    refine ⟨s, hs, hdue, hfits.1.1.mpr ?_⟩
    rw [List.length_replicate]
    decide

end Session

end EndToEnd

import EndToEnd.Proofs.Session.Opening
import EndToEnd.Proofs.Session.Sealing
import EndToEnd.Proofs.Wire.Canonical

/-!
# Which messages are accepted

A message is accepted under one key: its authenticator is that of its own bytes under the key, and
its plaintext is what the same key deciphers. The key is one that was kept for it, and is still due,
or the one at the position that the message names, on the chain that it names. A kept key is dropped
once it is used; on a chain the receiver goes on behind the position, and keeps the keys in front of
it only.

Main statements:

- `mem_prune_iff`: which of the kept keys are due;
- `reached_iff_readsOn`: which chain a message names;
- `openMessage_accepts`: what is accepted, and what it leaves.
-/

namespace EndToEnd.Session

variable {S : Suite} {config : Config} {now : UInt64} {s mid after : Session} {key : Key}
  {body payload plaintext ratchetKey : Bytes} {m : Wire.RatchetMessage} {isHandshake : Bool}
  {entry : SkippedKey}

/-! ## Keys that are due -/

/-- A kept key that is young enough, with fewer such keys behind it than are kept. -/
def Due (config : Config) (now : UInt64) (s : Session) (entry : SkippedKey) : Prop :=
  ∃ older newer, s.skipped.filter (·.isFresh now config.maxAge) = older ++ entry :: newer ∧
    newer.length < config.maxSkippedKeys

/-- Pruning keeps the keys that are due, and no others. -/
theorem mem_prune_iff : entry ∈ (s.prune config now).skipped ↔ s.Due config now entry := by
  let fresh := s.skipped.filter (·.isFresh now config.maxAge)
  show entry ∈ fresh.drop (fresh.length - config.maxSkippedKeys) ↔ _
  constructor
  · intro h
    obtain ⟨older, newer, hsplit⟩ := List.append_of_mem h
    refine ⟨fresh.take (fresh.length - config.maxSkippedKeys) ++ older, newer, ?_, ?_⟩
    · rw [List.append_assoc, ← hsplit, List.take_append_drop]
    · have hlength := congrArg List.length hsplit
      rw [List.length_drop, List.length_append, List.length_cons] at hlength
      omega
  · rintro ⟨older, newer, hsplit, hfew⟩
    have hlength : fresh.length = older.length + (newer.length + 1) := by
      rw [show fresh = older ++ entry :: newer from hsplit, List.length_append, List.length_cons]
    rw [show fresh = older ++ entry :: newer from hsplit] at hlength ⊢
    rw [List.drop_append_of_le_length (by omega)]
    exact List.mem_append_right _ List.mem_cons_self

/-- Keys that are due stay so, until the clock moves on. -/
theorem prune_prune (config : Config) (now : UInt64) (s : Session) :
    (s.prune config now).prune config now = s.prune config now := by
  refine prune_eq_self (fun k hk => ?_) ?_
  · exact (List.mem_filter.mp (List.mem_of_mem_drop hk)).2
  · show (List.drop _ _).length ≤ _
    rw [List.length_drop]
    omega

/-- Keys that are not due have no part in opening a message. -/
theorem openMessage_prune (S : Suite) (config : Config) (now : UInt64) (s : Session)
    (payload : Bytes) (isHandshake : Bool) :
    (s.prune config now).openMessage S config now payload isHandshake =
      s.openMessage S config now payload isHandshake := by
  rw [openMessage_eq, prune_prune, ← openMessage_eq]

/-! ## The chain that a message names -/

/-- The session whose receiving chain a message belongs to: as it is, if the message is inside a
handshake message or under the known ratchet key, and else after one receiving step. -/
inductive ReadsOn (S : Suite) (s : Session) (ratchetKey : Bytes) : Bool → Session → Prop
  | known {isHandshake : Bool}
      (known : isHandshake = true ∨ s.theirRatchet.map (·.bytes) = some ratchetKey) :
      ReadsOn S s ratchetKey isHandshake s
  | stepped {their shared : Key} {pair : KeyPair}
      (unknown : s.theirRatchet.map (·.bytes) ≠ some ratchetKey)
      (bytes : ratchetKey = their.bytes) (ratchet : s.ratchet = some pair)
      (agreed : pair.agree S ratchetKey = .ok shared) :
      ReadsOn S s ratchetKey false (s.steppedToReceive S their shared)

/-- The session reached for a message is the one whose chain it is read on. -/
theorem reached_iff_readsOn :
    s.reached S ratchetKey isHandshake = .ok mid ↔ s.ReadsOn S ratchetKey isHandshake mid := by
  unfold reached
  constructor
  · intro h
    split at h
    next hnew =>
      obtain ⟨pair, shared, their, hpair, hbytes, hshared, rfl⟩ := receiveStep_eq_ok.mp h
      obtain ⟨hno, hother⟩ := Bool.and_eq_true_iff.mp hnew
      cases isHandshake with
      | true => exact nomatch hno
      | false => exact .stepped (bne_iff_ne.mp hother) hbytes hpair (hbytes ▸ hshared)
    next hstays =>
      obtain rfl := Except.ok.inj h
      refine .known ?_
      cases isHandshake with
      | true => exact .inl rfl
      | false => exact .inr (Classical.byContradiction fun hother => hstays (bne_iff_ne.mpr hother))
  · intro h
    cases h with
    | known hknown =>
      rw [if_neg]
      intro hnew
      obtain ⟨hno, hother⟩ := Bool.and_eq_true_iff.mp hnew
      rcases hknown with rfl | hsame
      · exact nomatch hno
      · exact bne_iff_ne.mp hother hsame
    | @stepped their shared pair hother hbytes hpair hshared =>
      rw [if_pos (show (!false && s.isNewRatchet ratchetKey) = true from bne_iff_ne.mpr hother)]
      exact receiveStep_eq_ok.mpr ⟨pair, shared, their, hpair, hbytes, hbytes ▸ hshared, rfl⟩

/-- Kept keys have no part in which chain a message names. -/
theorem ReadsOn.withSkipped (kept : List SkippedKey) (h : s.ReadsOn S ratchetKey isHandshake mid) :
    ({ s with skipped := kept } : Session).ReadsOn S ratchetKey isHandshake
      { mid with skipped := kept } := by
  cases h with
  | known hknown => exact .known hknown
  | stepped hother hbytes hpair hshared => exact .stepped hother hbytes hpair hshared

/-- Pruning drops kept keys alone, so the same chain is read on. -/
theorem readsOn_prune_iff :
    (s.prune config now).ReadsOn S ratchetKey isHandshake mid ↔
      ∃ mid', s.ReadsOn S ratchetKey isHandshake mid' ∧
        mid = { mid' with skipped := (s.prune config now).skipped } := by
  constructor
  · intro h
    refine ⟨{ mid with skipped := s.skipped }, h.withSkipped s.skipped, ?_⟩
    cases h <;> rfl
  · rintro ⟨mid', h, rfl⟩
    exact h.withSkipped _

/-! ## Acceptance -/

/-- A payload is a message with the authenticator of its bytes under a key behind it, and the same
key deciphers it. -/
structure Authentic (S : Suite) (key : Key) (m : Wire.RatchetMessage)
    (body payload plaintext : Bytes) : Prop where
  version : m.version = Wire.currentVersion
  encoded : m.encode = .ok body
  payload_eq : payload = body ++ ((MessageKeys.ofKey S key).mac S body).bytes
  deciphers : (MessageKeys.ofKey S key).decrypt S m.ciphertext = .ok plaintext

/-- A kept key is used: it is the first one due that has the authenticator, and it alone is dropped. -/
structure UsesSkipped (S : Suite) (config : Config) (now : UInt64) (s : Session) (key : Key)
    (body : Bytes) (before : List SkippedKey) (entry : SkippedKey) (behind : List SkippedKey)
    (after : Session) : Prop where
  key_eq : entry.key = key
  due : s.Due config now entry
  skipped : (s.prune config now).skipped = before ++ entry :: behind
  first : ∀ other ∈ before,
    (MessageKeys.ofKey S other.key).mac S body ≠ (MessageKeys.ofKey S key).mac S body
  after_eq : after = { s with skipped := before ++ behind }

/-- The key at the position of a message is used: no kept key has the authenticator, the position is
not behind the chain and not too far ahead, and the chain goes on behind it. -/
structure UsesChain (S : Suite) (config : Config) (now : UInt64) (s : Session) (key : Key)
    (body : Bytes) (m : Wire.RatchetMessage) (isHandshake : Bool) (mid : Session) (chain : Key)
    (after : Session) : Prop where
  readsOn : s.ReadsOn S m.ratchetKey isHandshake mid
  receiveChain : mid.receiveChain = some chain
  notBehind : mid.receiveIndex.toNat ≤ m.chainIndex.toNat
  notAhead : m.chainIndex.toNat ≤ mid.receiveIndex.toNat + config.maxSkip
  key_eq : key = messageKeyAt S chain (mid.ahead m.chainIndex)
  unclaimed : ∀ other ∈ (s.prune config now).skipped,
    (MessageKeys.ofKey S other.key).mac S body ≠ (MessageKeys.ofKey S key).mac S body
  after_eq : ∃ next, next.toNat = m.chainIndex.toNat + 1 ∧
    after = ({ mid with
      receiveChain := some (chainKeyAt S chain (mid.ahead m.chainIndex + 1))
      receiveIndex := next
      skipped := (s.prune config now).skipped ++
        ((List.range (mid.ahead m.chainIndex)).map (messageKeyAt S chain)).map
          (SkippedKey.mk now) } : Session).prune config now
  /-- The key is not kept, unless it is also that of a position passed over. -/
  notKept : ∀ other ∈ after.skipped, other.key = key →
    ∃ i < mid.ahead m.chainIndex, messageKeyAt S chain i = key

/-- A kept key opens a message if its authenticator is the message's. -/
theorem opens_iff {mac : Mac} :
    entry.opens S body mac.bytes = true ↔ (MessageKeys.ofKey S entry.key).mac S body = mac := by
  unfold SkippedKey.opens MessageKeys.verifies
  rw [beq_iff_eq]
  exact ⟨Octets.ext, congrArg _⟩

theorem opens_eq_false_iff {mac : Mac} :
    entry.opens S body mac.bytes = false ↔ (MessageKeys.ofKey S entry.key).mac S body ≠ mac := by
  rw [← Bool.not_eq_true, opens_iff]

/-- What a key opens without a step of its chain. -/
theorem openSkipped_iff_usesSkipped {ciphertext : Bytes} {mac : Mac} :
    (s.prune config now).openSkipped S body mac.bytes ciphertext = .ok (some (plaintext, after)) ↔
      ∃ key before entry behind, (MessageKeys.ofKey S key).mac S body = mac ∧
        (MessageKeys.ofKey S key).decrypt S ciphertext = .ok plaintext ∧
        UsesSkipped S config now s key body before entry behind after := by
  rw [openSkipped_eq_some_iff]
  constructor
  · rintro ⟨before, entry, behind, hskipped, hbefore, hopens, hplain, rfl⟩
    obtain rfl := opens_iff.mp hopens
    have hmem : entry ∈ (s.prune config now).skipped := by
      rw [hskipped]
      exact List.mem_append_right _ List.mem_cons_self
    exact ⟨entry.key, before, entry, behind, rfl, hplain, rfl, mem_prune_iff.mp hmem, hskipped,
      fun other hother => opens_eq_false_iff.mp (hbefore other hother), rfl⟩
  · rintro ⟨_, before, entry, behind, rfl, hplain, rfl, -, hskipped, hfirst, rfl⟩
    exact ⟨before, entry, behind, hskipped, fun other hother => opens_eq_false_iff.mpr
      (hfirst other hother), opens_iff.mpr rfl, hplain, rfl⟩

/-- The keys behind a chain that was gone along are those that were due before and those of the
positions passed over. -/
theorem notKept_of_unclaimed {kept : List SkippedKey} {chain : Key} {gap : Nat}
    (hunclaimed : ∀ other ∈ kept,
      (MessageKeys.ofKey S other.key).mac S body ≠ (MessageKeys.ofKey S key).mac S body)
    (hmid : mid.skipped =
      kept ++ ((List.range gap).map (messageKeyAt S chain)).map (SkippedKey.mk now)) :
    ∀ other ∈ (mid.prune config now).skipped, other.key = key →
      ∃ i < gap, messageKeyAt S chain i = key := by
  rintro other hother rfl
  have hmem := (prune_sublist config now mid).subset hother
  rw [hmid, List.mem_append, List.mem_map] at hmem
  rcases hmem with hkept | ⟨passed, hpassed, rfl⟩
  · exact absurd rfl (hunclaimed other hkept)
  · obtain ⟨i, hi, hkey⟩ := List.mem_map.mp hpassed
    exact ⟨i, List.mem_range.mp hi, hkey⟩

/-- What a key of a chain opens. -/
theorem openOnChain_iff_usesChain {mac : Mac} :
    (((s.prune config now).openSkipped S body mac.bytes m.ciphertext = .ok none ∧
      ∃ mid advanced, (s.prune config now).reached S m.ratchetKey isHandshake = .ok mid ∧
        mid.openOnChain S config now body mac.bytes m = .ok (plaintext, advanced) ∧
        after = advanced.prune config now)) ↔
      ∃ key mid chain, (MessageKeys.ofKey S key).mac S body = mac ∧
        (MessageKeys.ofKey S key).decrypt S m.ciphertext = .ok plaintext ∧
        UsesChain S config now s key body m isHandshake mid chain after := by
  simp only [openSkipped_eq_none, reached_iff_readsOn, readsOn_prune_iff, openOnChain_eq_ok,
    nextIndex_eq_ok]
  constructor
  · rintro ⟨hnone, _, _, ⟨mid, hreads, rfl⟩, ⟨chain, next, hchain, hle, hskip, hverifies, hplain,
      hnext, rfl⟩, rfl⟩
    obtain rfl := Octets.ext (beq_iff_eq.mp hverifies)
    have hunclaimed := fun other hother => opens_eq_false_iff.mp (hnone other hother)
    refine ⟨_, mid, chain, rfl, hplain, hreads, hchain, hle, ?_, rfl, hunclaimed,
      ⟨next, hnext, ?_⟩, notKept_of_unclaimed hunclaimed rfl⟩
    · have hskip : m.chainIndex.toNat - mid.receiveIndex.toNat ≤ config.maxSkip := hskip
      omega
    · rw [chainKeyAt_succ]
      rfl
  · rintro ⟨_, mid, chain, rfl, hplain, hreads, hchain, hle, hskip, rfl, hunclaimed,
      ⟨next, hnext, rfl⟩, -⟩
    refine ⟨fun other hother => opens_eq_false_iff.mpr (hunclaimed other hother), _, _,
      ⟨mid, hreads, rfl⟩, ⟨chain, next, hchain, hle, ?_, beq_self_eq_true _, hplain, hnext, rfl⟩, ?_⟩
    · show m.chainIndex.toNat - mid.receiveIndex.toNat ≤ config.maxSkip
      omega
    · rw [chainKeyAt_succ]
      rfl

/-- A payload is accepted exactly if it is authentic under a kept key that is due, or, if none of
those has its authenticator, under the key at its position of its chain. Keys that are too old or too
many make no difference. -/
theorem openMessage_accepts :
    (s.openMessage S config now payload isHandshake = .ok (plaintext, after) ↔
      ∃ m key body, Authentic S key m body payload plaintext ∧
        ((∃ before entry behind, UsesSkipped S config now s key body before entry behind after) ∨
          ∃ mid chain, UsesChain S config now s key body m isHandshake mid chain after)) ∧
    (s.prune config now).openMessage S config now payload isHandshake =
      s.openMessage S config now payload isHandshake := by
  refine ⟨?_, openMessage_prune S config now s payload isHandshake⟩
  simp only [openMessage_eq_ok, openSkipped_iff_usesSkipped, openOnChain_iff_usesChain,
    Wire.splitMac_eq_ok, Wire.RatchetMessage.decode_eq_ok]
  constructor
  · rintro ⟨body, _, m, rfl, ⟨hversion, hencode⟩, ⟨key, before, entry, behind, rfl, hplain, huses⟩ |
      ⟨key, mid, chain, rfl, hplain, huses⟩⟩
    · exact ⟨m, key, body, ⟨hversion, hencode, rfl, hplain⟩, .inl ⟨before, entry, behind, huses⟩⟩
    · exact ⟨m, key, body, ⟨hversion, hencode, rfl, hplain⟩, .inr ⟨mid, chain, huses⟩⟩
  · rintro ⟨m, key, body, ⟨hversion, hencode, rfl, hplain⟩, ⟨before, entry, behind, huses⟩ |
      ⟨mid, chain, huses⟩⟩
    · exact ⟨body, _, m, rfl, ⟨hversion, hencode⟩,
        .inl ⟨key, before, entry, behind, rfl, hplain, huses⟩⟩
    · exact ⟨body, _, m, rfl, ⟨hversion, hencode⟩, .inr ⟨key, mid, chain, rfl, hplain, huses⟩⟩

end EndToEnd.Session

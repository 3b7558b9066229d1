import EndToEnd.Proofs.Primitive.Chaining
import EndToEnd.Proofs.Session.Opening
import EndToEnd.Proofs.Session.Sealing
import EndToEnd.Proofs.Wire.RoundTrip

/-!
# Letters of a chain

A letter is a sealed message together with the position of the chain it was sealed at. Seen from a
chain, a conversation is simple: one session sends on it, another receives on it, and the letters in
between are at increasing positions from the receiver's to the sender's.

Main statements:

- `Sends.letter`: sealing adds a letter at the sender's position;
- `Receives.open_letter`: a letter is opened to its plaintext by the session that receives on its
  chain, unless it is too far ahead or another letter's skipped key opens it;
- `open_letter_cases`: whatever else happens to a letter, it is a skipped key that opened it.
-/

namespace EndToEnd

/-- A sealed message, and where on its sender's chain it was sealed. -/
structure Letter where
  index : UInt32
  /-- It travels inside a handshake message. -/
  isHandshake : Bool
  /-- The message key that it is sealed with. -/
  key : Key
  plaintext : Bytes
  payload : Bytes

namespace Letter

/-- What a letter is encrypted and authenticated with. -/
def keys (S : Suite) (l : Letter) : MessageKeys := MessageKeys.ofKey S l.key

/-- The message of a letter that was sealed under a ratchet key. -/
def message (S : Suite) (ratchetKey : Key) (l : Letter) : Wire.RatchetMessage :=
  .current ratchetKey.bytes l.index ((l.keys S).encrypt S l.plaintext)

/-- The letter was sealed on the chain that a ratchet key names and that starts with a key. -/
structure IsSealed (S : Suite) (ratchetKey chain : Key) (l : Letter) : Prop where
  key : l.key = messageKeyAt S chain l.index.toNat
  payload : Session.authenticated S (l.keys S) (l.message S ratchetKey) = .ok l.payload
  notLast : ∃ next, Session.nextIndex l.index = .ok next

/-- What its receiver reads a letter as. -/
theorem IsSealed.parts {S : Suite} {ratchetKey chain : Key} {l : Letter}
    (h : l.IsSealed S ratchetKey chain) :
    ∃ body mac, Wire.splitMac l.payload = .ok (body, mac) ∧
      Wire.RatchetMessage.decode body = .ok (l.message S ratchetKey) ∧
      (l.keys S).verifies S body mac.bytes = true := by
  obtain ⟨body, hbody, hpayload⟩ := bind_eq_ok.mp h.payload
  refine ⟨body, (l.keys S).mac S body, ?_, ?_, beq_self_eq_true _⟩
  · rw [← Except.ok.inj hpayload, Wire.splitMac_append]
  · exact Wire.RatchetMessage.decode_encode rfl hbody

end Letter

/-- Whether letters can be lost on their way. -/
inductive Delivery
  | complete
  | lossy

/-- The position that comes after those before `low`: the next one, unless letters are lost. -/
def Delivery.Follows : Delivery → (low index : Nat) → Prop
  | .complete, low, index => low = index
  | .lossy, low, index => low ≤ index

variable {S : Suite} {ratchetKey chain : Key} {d : Delivery}

theorem Delivery.Follows.refl (d : Delivery) (low : Nat) : d.Follows low low := by
  cases d with
  | complete => rfl
  | lossy => exact Nat.le_refl low

theorem Delivery.Follows.le {low index : Nat} (h : d.Follows low index) : low ≤ index := by
  cases d with
  | complete => exact Nat.le_of_eq h
  | lossy => exact h

/-! ## Letters on their way -/

/-- The letters are sealed on a chain, one after the other from `low` to below `high`. -/
def InTransit (d : Delivery) (S : Suite) (ratchetKey chain : Key) :
    (low high : Nat) → List Letter → Prop
  | low, high, [] => d.Follows low high
  | low, high, l :: ls => l.IsSealed S ratchetKey chain ∧ d.Follows low l.index.toNat ∧
      InTransit d S ratchetKey chain (l.index.toNat + 1) high ls

namespace InTransit

variable {low low' high : Nat} {l : Letter} {ls : List Letter}

/-- Where letters can be lost, the first position may lie further back. -/
theorem weaken (h : InTransit .lossy S ratchetKey chain low high ls) (hle : low' ≤ low) :
    InTransit .lossy S ratchetKey chain low' high ls := by
  cases ls with
  | nil => exact Nat.le_trans hle h
  | cons l ls => exact ⟨h.1, Nat.le_trans hle h.2.1, h.2.2⟩

/-- A letter that is lost leaves the rest as it is. -/
theorem tail (h : InTransit .lossy S ratchetKey chain low high (l :: ls)) :
    InTransit .lossy S ratchetKey chain low high ls :=
  h.2.2.weaken (Nat.le_succ_of_le h.2.1)

/-- The next letter goes behind all others. -/
theorem concat (h : InTransit d S ratchetKey chain low high ls)
    (hl : l.IsSealed S ratchetKey chain) (hindex : l.index.toNat = high) :
    InTransit d S ratchetKey chain low (high + 1) (ls ++ [l]) := by
  induction ls generalizing low with
  | nil =>
    refine ⟨hl, ?_, ?_⟩
    · rw [hindex]
      exact h
    · rw [hindex]
      exact .refl d _
  | cons first ls ih => exact ⟨h.1, h.2.1, ih h.2.2⟩

end InTransit

namespace Session

variable {s mid after : Session} {pair : KeyPair} {config : Config} {now : UInt64} {l : Letter}
  {plaintext payload : Bytes}

/-! ## The sender -/

/-- The session sends on the chain that its ratchet key names and that starts with a key. -/
structure Sends (S : Suite) (s : Session) (pair : KeyPair) (chain : Key) : Prop where
  ratchet : s.ratchet = some pair
  sendChain : s.sendChain = some (chainKeyAt S chain s.sendIndex.toNat)

/-- Sealing uses up one position of the sending chain, and changes nothing else. -/
theorem Sends.letter (h : Sends S s pair chain) {key : Key}
    (hkey : s.sendChain.map (messageKey S) = some key)
    (hsealed : s.sealNext S plaintext = .ok (payload, after)) (isHandshake : Bool) :
    Letter.IsSealed S pair.publicKey chain ⟨s.sendIndex, isHandshake, key, plaintext, payload⟩ ∧
      Sends S after pair chain ∧ after.sendIndex.toNat = s.sendIndex.toNat + 1 ∧
      after = { s with sendChain := after.sendChain, sendIndex := after.sendIndex } := by
  obtain ⟨current, pair', next, hcurrent, hpair, hnext, hpayload, rfl⟩ := sealNext_eq_ok.mp hsealed
  obtain rfl : pair = pair' := Option.some.inj (h.ratchet.symm.trans hpair)
  obtain rfl : chainKeyAt S chain s.sendIndex.toNat = current :=
    Option.some.inj (h.sendChain.symm.trans hcurrent)
  obtain rfl : messageKeyAt S chain s.sendIndex.toNat = key := by
    rw [h.sendChain] at hkey
    exact Option.some.inj hkey
  have hsucc : next.toNat = s.sendIndex.toNat + 1 := nextIndex_eq_ok.mp hnext
  refine ⟨⟨rfl, hpayload, next, hnext⟩, ⟨h.ratchet, ?_⟩, hsucc, rfl⟩
  show some (nextChainKey S (chainKeyAt S chain s.sendIndex.toNat)) =
    some (chainKeyAt S chain next.toNat)
  rw [hsucc, chainKeyAt_succ]

/-! ## The receiver -/

/-- The session receives on the chain that a ratchet key names and that starts with a key. -/
structure Receives (S : Suite) (s : Session) (ratchetKey chain : Key) : Prop where
  theirRatchet : s.theirRatchet = some ratchetKey
  receiveChain : s.receiveChain = some (chainKeyAt S chain s.receiveIndex.toNat)

/-- An accepted position of a chain is followed by the next one of the same chain. -/
theorem Receives.advanced (h : Receives S mid ratchetKey chain) {first : Key}
    (hfirst : mid.receiveChain = some first) {index next : UInt32}
    (hle : mid.receiveIndex.toNat ≤ index.toNat) (hnext : nextIndex index = .ok next)
    (kept : List SkippedKey) :
    Receives S (mid.advanced S (chainKeyAt S first (mid.ahead index)) next kept)
      ratchetKey chain := by
  refine ⟨h.theirRatchet, ?_⟩
  obtain rfl : chainKeyAt S chain mid.receiveIndex.toNat = first :=
    Option.some.inj (h.receiveChain.symm.trans hfirst)
  show some (nextChainKey S (chainKeyAt S (chainKeyAt S chain mid.receiveIndex.toNat)
    (index.toNat - mid.receiveIndex.toNat))) = some (chainKeyAt S chain next.toNat)
  rw [← chainKeyAt_add, Nat.add_sub_cancel' hle, nextIndex_eq_ok.mp hnext, chainKeyAt_succ]

/-- A payload is what sealing a plaintext with a message key gives, on some chain. -/
def SealedWith (S : Suite) (key : Key) (plaintext payload : Bytes) : Prop :=
  ∃ ratchetKey index, authenticated S (MessageKeys.ofKey S key)
    (.current ratchetKey index ((MessageKeys.ofKey S key).encrypt S plaintext)) = .ok payload

/-- A key that a payload was sealed with gives the plaintext back. -/
theorem SealedWith.decrypts (hcipher : S.CipherUndoes) {key : Key}
    (h : SealedWith S key plaintext payload) {body : Bytes} {mac : Mac} {m : Wire.RatchetMessage}
    (hsplit : Wire.splitMac payload = .ok (body, mac))
    (hdecode : Wire.RatchetMessage.decode body = .ok m) :
    (MessageKeys.ofKey S key).decrypt S m.ciphertext = .ok plaintext := by
  obtain ⟨ratchetKey, index, hsealed⟩ := h
  obtain ⟨written, hwritten, hpayload⟩ := bind_eq_ok.mp hsealed
  obtain rfl := Except.ok.inj hpayload
  obtain ⟨rfl, -⟩ := Prod.mk.inj (Except.ok.inj ((Wire.splitMac_append _ _).symm.trans hsplit))
  obtain rfl := Except.ok.inj
    ((Wire.RatchetMessage.decode_encode rfl hwritten).symm.trans hdecode)
  exact Suite.decryptWith_encryptWith hcipher _ _ _

/-- No skipped key opens a payload, unless the plaintext could have been sealed with it. -/
def Unmistaken (S : Suite) (s : Session) (plaintext payload : Bytes) : Prop :=
  ∀ body mac, Wire.splitMac payload = .ok (body, mac) →
    ∀ k ∈ s.skipped, k.opens S body mac.bytes = true → SealedWith S k.key plaintext payload

/-- Without kept keys there is nothing to mistake a payload for. -/
theorem Unmistaken.of_skipped_eq_nil {payload : Bytes} (h : s.skipped = []) :
    Unmistaken S s plaintext payload := by
  intro body mac _ k hk
  rw [h] at hk
  exact nomatch hk

/-- A letter that is opened was opened by a skipped key, or on the chain that its ratchet key leads
to. -/
theorem open_letter_cases (hl : l.IsSealed S ratchetKey chain)
    (h : s.openMessage S config now l.payload l.isHandshake = .ok (plaintext, after)) :
    (s.skipped ≠ [] ∧ ∃ kept, after = { s with skipped := kept }) ∨
      ∃ mid first next kept, s.reached S ratchetKey.bytes l.isHandshake = .ok mid ∧
        mid.receiveChain = some first ∧ mid.receiveIndex.toNat ≤ l.index.toNat ∧
        nextIndex l.index = .ok next ∧
        kept.Sublist (s.skipped ++ ((List.range (mid.ahead l.index)).map
          (messageKeyAt S first)).map (SkippedKey.mk now)) ∧
        after = mid.advanced S (chainKeyAt S first (mid.ahead l.index)) next kept := by
  obtain ⟨body, mac, hsplit, hdecode, -⟩ := hl.parts
  obtain ⟨body', mac', m, hsplit', hdecode', hopen⟩ := openMessage_eq_ok.mp h
  obtain ⟨rfl, rfl⟩ := Prod.mk.inj (Except.ok.inj (hsplit.symm.trans hsplit'))
  obtain rfl := Except.ok.inj (hdecode.symm.trans hdecode')
  rcases hopen with hskipped | ⟨-, mid, advanced, hmid, honChain, rfl⟩
  · obtain ⟨hsome, kept, rfl⟩ := openSkipped_eq_some hskipped
    exact .inl ⟨fun hnil => hsome (List.eq_nil_of_subset_nil
      (hnil ▸ (prune_sublist config now s).subset)), kept, rfl⟩
  · obtain ⟨first, next, hfirst, hle, -, -, -, hnext, rfl⟩ := openOnChain_eq_ok.mp honChain
    have hunpruned : s.reached S ratchetKey.bytes l.isHandshake =
        .ok { mid with skipped := s.skipped } :=
      reached_skipped (s := s.prune config now) s.skipped hmid
    have hkept : mid.skipped.Sublist s.skipped := by
      rw [reached_skipped_eq hmid]
      exact prune_sublist config now s
    exact .inr ⟨_, first, next, _, hunpruned, hfirst, hle, hnext,
      (prune_sublist config now _).trans (hkept.append_right _), rfl⟩

/-- A letter is opened to its plaintext by the session that receives on its chain, if it is not too
far ahead and no other letter's skipped key opens it. -/
theorem Receives.open_letter (hcipher : S.CipherUndoes) (hl : l.IsSealed S ratchetKey chain)
    (hmid : s.reached S ratchetKey.bytes l.isHandshake = .ok mid)
    (h : Receives S mid ratchetKey chain) (hle : mid.receiveIndex.toNat ≤ l.index.toNat)
    (hskip : mid.ahead l.index ≤ config.maxSkip)
    (hown : s.Unmistaken S l.plaintext l.payload) :
    ∃ after, s.openMessage S config now l.payload l.isHandshake = .ok (l.plaintext, after) := by
  obtain ⟨body, mac, hsplit, hdecode, hverifies⟩ := hl.parts
  have hopens : (l.keys S).decrypt S (l.message S ratchetKey).ciphertext = .ok l.plaintext :=
    Suite.decryptWith_encryptWith hcipher _ _ _
  rcases openSkipped_cases S (s.prune config now) body mac.bytes
      (l.message S ratchetKey).ciphertext with ⟨-, hnone⟩ | ⟨k, hk, hkopens, i, hsome⟩
  · -- on the chain: the position is the receiver's, plus the distance
    have hkey : messageKeyAt S (chainKeyAt S chain mid.receiveIndex.toNat) (mid.ahead l.index) =
        l.key := by
      rw [messageKeyAt, ← chainKeyAt_add, ahead, Nat.add_sub_cancel' hle, hl.key, messageKeyAt]
    obtain ⟨next, hnext⟩ := hl.notLast
    have honChain (kept : List SkippedKey) : ∃ advanced,
        openOnChain S config now { mid with skipped := kept } body mac.bytes
          (l.message S ratchetKey) = .ok (l.plaintext, advanced) := by
      refine ⟨_, openOnChain_eq_ok.mpr ⟨_, next, h.receiveChain, hle, hskip, ?_, ?_, hnext, rfl⟩⟩
      · show (MessageKeys.ofKey S (messageKeyAt S _ (mid.ahead l.index))).verifies S _ _ = true
        rw [hkey]
        exact hverifies
      · show (MessageKeys.ofKey S (messageKeyAt S _ (mid.ahead l.index))).decrypt S _ = _
        rw [hkey]
        exact hopens
    obtain ⟨advanced, hadvanced⟩ := honChain (s.prune config now).skipped
    exact ⟨_, openMessage_eq_ok.mpr ⟨body, mac, _, hsplit, hdecode,
      .inr ⟨hnone, _, advanced, reached_skipped _ hmid, hadvanced, rfl⟩⟩⟩
  · -- a skipped key: one that the letter was sealed with
    have hsealed := hown body mac hsplit k ((prune_sublist config now s).mem hk) hkopens
    refine ⟨{ s with skipped := (s.prune config now).skipped.eraseIdx i },
      openMessage_eq_ok.mpr ⟨body, mac, _, hsplit, hdecode, .inl ?_⟩⟩
    exact hsome.trans (congrArg (Except.map _)
      (openWith_eq_ok.mpr (hsealed.decrypts hcipher hsplit hdecode)))

end Session

end EndToEnd

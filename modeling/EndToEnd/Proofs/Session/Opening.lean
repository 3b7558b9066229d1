import EndToEnd.Proofs.Refusal
import EndToEnd.Session.Ratchet

/-!
# What opening does

Opening reads the message, drops skipped keys that are due, tries the others, and then goes to the
message's chain, which a receiving step opens if it is new. Each part is inverted here once.

Main statements:

- `openSkipped_cases`, `openSkipped_eq_some_iff`: the first skipped key that opens a message decides,
  if there is one;
- `reached_eq_ok`: the chain of a message is the known one, or a receiving step opens it;
- `openOnChain_cases`, `openOnChain_eq_ok`: which messages are on a chain, and what they do to it;
- `openMessage_eq_ok`: an opened message is those parts one after the other;
- `openMessage_changes`: what that does to a session.
-/

namespace EndToEnd

theorem Key.parse_bytes (half : KeyHalf) (key : Key) : Key.parse half key.bytes = .ok key := by
  rw [Key.parse, Octets.ofBytes?_bytes]

/-- A key is read of its bytes and of no others. -/
theorem Key.parse_eq_ok {half : KeyHalf} {bytes : Bytes} {key : Key} :
    Key.parse half bytes = .ok key ↔ bytes = key.bytes := by
  constructor
  · intro h
    unfold Key.parse at h
    split at h
    next read hread =>
      obtain rfl := Except.ok.inj h
      exact Octets.ofBytes?_eq_some_iff.mp hread
    next => exact nomatch h
  · rintro rfl
    exact Key.parse_bytes half key

namespace Session

variable {S : Suite} {config : Config} {now : UInt64} {s mid after : Session}
  {body mac ciphertext payload plaintext : Bytes} {m : Wire.RatchetMessage} {isHandshake : Bool}

/-- A message is opened exactly if it is deciphered; only the refusal has another name. -/
theorem openWith_eq_ok {keys : MessageKeys} :
    openWith S keys ciphertext = .ok plaintext ↔ keys.decrypt S ciphertext = .ok plaintext :=
  mapError_eq_ok

/-! ## Skipped keys -/

/-- Pruning takes kept keys out and leaves the others in order. -/
theorem prune_sublist (config : Config) (now : UInt64) (s : Session) :
    (s.prune config now).skipped.Sublist s.skipped :=
  (List.drop_sublist _ _).trans List.filter_sublist

/-- Pruning leaves a session alone if all its keys are young enough and few enough. -/
theorem prune_eq_self (hfresh : ∀ k ∈ s.skipped, k.isFresh now config.maxAge = true)
    (hroom : s.skipped.length ≤ config.maxSkippedKeys) : s.prune config now = s := by
  rw [prune, List.filter_eq_self.mpr hfresh, Nat.sub_eq_zero_of_le hroom, List.drop_zero]

/-- Either no skipped key opens a message, or the first one that does decides what it says and is
used up. -/
theorem openSkipped_cases (S : Suite) (s : Session) (body mac ciphertext : Bytes) :
    ((∀ k ∈ s.skipped, k.opens S body mac = false) ∧
      s.openSkipped S body mac ciphertext = .ok none) ∨
    ∃ k ∈ s.skipped, k.opens S body mac = true ∧ ∃ i,
      s.openSkipped S body mac ciphertext =
        (openWith S (MessageKeys.ofKey S k.key) ciphertext).map fun plaintext =>
          some (plaintext, { s with skipped := s.skipped.eraseIdx i }) := by
  cases hfind : s.skipped.findIdx? (·.opens S body mac) with
  | none =>
    refine .inl ⟨fun k hk => ?_, by simp only [openSkipped, hfind]; rfl⟩
    exact List.findIdx?_eq_none_iff.mp hfind k hk
  | some i =>
    obtain ⟨hi, hopens, -⟩ := List.findIdx?_eq_some_iff_getElem.mp hfind
    refine .inr ⟨s.skipped[i], List.getElem_mem hi, hopens, i, ?_⟩
    simp only [openSkipped, hfind, List.getElem?_eq_getElem hi]
    cases openWith S (MessageKeys.ofKey S s.skipped[i].key) ciphertext <;> rfl

/-- A message opened by a skipped key changes nothing but the skipped keys. -/
theorem openSkipped_eq_some
    (h : s.openSkipped S body mac ciphertext = .ok (some (plaintext, after))) :
    s.skipped ≠ [] ∧ ∃ keys, after = { s with skipped := keys } := by
  rcases openSkipped_cases S s body mac ciphertext with ⟨-, hnone⟩ | ⟨k, hk, -, i, hsome⟩
  · rw [hnone] at h
    exact nomatch h
  · rw [hsome] at h
    cases hopen : openWith S (MessageKeys.ofKey S k.key) ciphertext with
    | error cause => rw [hopen] at h; exact nomatch h
    | ok found =>
      rw [hopen] at h
      obtain ⟨rfl, rfl⟩ := Prod.mk.inj (Option.some.inj (Except.ok.inj h))
      exact ⟨List.ne_nil_of_mem hk, _, rfl⟩

/-- No skipped key opens a message exactly if each of them fails. -/
theorem openSkipped_eq_none :
    s.openSkipped S body mac ciphertext = .ok none ↔ ∀ k ∈ s.skipped, k.opens S body mac = false := by
  rcases openSkipped_cases S s body mac ciphertext with ⟨hall, hnone⟩ | ⟨k, hk, hopens, i, hsome⟩
  · exact ⟨fun _ => hall, fun _ => hnone⟩
  · constructor
    · intro h
      rw [hsome] at h
      obtain ⟨_, -, hmap⟩ := map_eq_ok.mp h
      exact nomatch hmap
    · intro h
      exact nomatch hopens.symm.trans (h k hk)

/-- The skipped key that opens a message is the first one that does, and the others are kept. -/
theorem openSkipped_eq_some_iff :
    s.openSkipped S body mac ciphertext = .ok (some (plaintext, after)) ↔
      ∃ before k behind, s.skipped = before ++ k :: behind ∧
        (∀ other ∈ before, other.opens S body mac = false) ∧ k.opens S body mac = true ∧
        (MessageKeys.ofKey S k.key).decrypt S ciphertext = .ok plaintext ∧
        after = { s with skipped := before ++ behind } := by
  constructor
  · intro h
    cases hfind : s.skipped.findIdx? (·.opens S body mac) with
    | none =>
      simp only [openSkipped, hfind] at h
      exact nomatch Except.ok.inj h
    | some i =>
      obtain ⟨hi, hopens, hbefore⟩ := List.findIdx?_eq_some_iff_getElem.mp hfind
      simp only [openSkipped, hfind, List.getElem?_eq_getElem hi] at h
      obtain ⟨found, hfound, h⟩ := bind_eq_ok.mp h
      obtain ⟨rfl, rfl⟩ := Prod.mk.inj (Option.some.inj (Except.ok.inj h))
      refine ⟨s.skipped.take i, s.skipped[i], s.skipped.drop (i + 1), ?_, fun other hother => ?_,
        hopens, openWith_eq_ok.mp hfound, ?_⟩
      · rw [List.getElem_cons_drop, List.take_append_drop]
      · obtain ⟨j, hj, rfl⟩ := List.mem_take_iff_getElem.mp hother
        exact Bool.eq_false_iff.mpr (hbefore j (by omega))
      · rw [List.eraseIdx_eq_take_drop_succ]
  · rintro ⟨before, k, behind, hskipped, hbefore, hopens, hplain, rfl⟩
    -- the first key that opens the message stands behind `before`
    have hfind : s.skipped.findIdx? (·.opens S body mac) = some before.length := by
      rw [hskipped, List.findIdx?_append, List.findIdx?_eq_none_iff.mpr hbefore,
        List.findIdx?_cons, if_pos hopens, Option.none_or, Option.map_some, Nat.zero_add]
    have hget : s.skipped[before.length]? = some k := by
      rw [hskipped, List.getElem?_append_right (Nat.le_refl _), Nat.sub_self]
      rfl
    have herase : s.skipped.eraseIdx before.length = before ++ behind := by
      rw [hskipped, List.eraseIdx_append_of_length_le (Nat.le_refl _), Nat.sub_self,
        List.eraseIdx_cons_zero]
    simp only [openSkipped, hfind, hget, openWith_eq_ok.mpr hplain, ok_bind, herase]
    rfl

/-! ## The chain of a message -/

/-- The session after a receiving step that agreed on a key. -/
def steppedToReceive (S : Suite) (s : Session) (their shared : Key) : Session :=
  { s with
    root := (RootStep.next S s.root shared).root
    receiveChain := some (RootStep.next S s.root shared).chain
    receiveIndex := 0
    theirRatchet := some their
    stepPending := true }

/-- The session on whose receiving chain a message is opened. -/
def reached (S : Suite) (s : Session) (theirRatchet : Bytes) (isHandshake : Bool) :
    Except SessionError Session :=
  if !isHandshake && s.isNewRatchet theirRatchet then s.receiveStep S theirRatchet else .ok s

/-- A ratchet key is new if it is not the known one. -/
theorem isNewRatchet_bytes {their : Key} :
    s.isNewRatchet their.bytes = true ↔ s.theirRatchet ≠ some their := by
  unfold isNewRatchet
  rw [bne_iff_ne, not_iff_not]
  constructor
  · intro h
    obtain ⟨key, hkey, hbytes⟩ := Option.map_eq_some_iff.mp h
    rw [hkey, Octets.ext hbytes]
  · intro h
    rw [h, Option.map_some]

/-- A receiving step takes a ratchet key of our own, and an agreement of it with theirs. -/
theorem receiveStep_eq_ok {theirRatchet : Bytes} :
    s.receiveStep S theirRatchet = .ok after ↔
      ∃ pair shared their, s.ratchet = some pair ∧ theirRatchet = their.bytes ∧
        pair.agree S their.bytes = .ok shared ∧ after = s.steppedToReceive S their shared := by
  unfold receiveStep
  constructor
  · intro h
    split at h
    next => exact nomatch h
    next pair hpair =>
      obtain ⟨shared, hshared, h⟩ := bind_eq_ok.mp h
      obtain ⟨their, htheir, h⟩ := bind_eq_ok.mp h
      have hbytes := Key.parse_eq_ok.mp (mapError_eq_ok.mp htheir)
      exact ⟨pair, shared, their, hpair, hbytes, hbytes ▸ mapError_eq_ok.mp hshared,
        (Except.ok.inj h).symm⟩
  · rintro ⟨pair, shared, their, hpair, rfl, hshared, rfl⟩
    simp only [hpair, hshared, mapError_ok, ok_bind, Key.parse_bytes, steppedToReceive]
    rfl

/-- A message is read where the session stands, or after one step if its ratchet key is new. -/
theorem reached_eq_ok {their : Key} :
    s.reached S their.bytes isHandshake = .ok mid ↔
      ((isHandshake = true ∨ s.theirRatchet = some their) ∧ mid = s) ∨
      (isHandshake = false ∧ s.theirRatchet ≠ some their ∧
        ∃ pair shared, s.ratchet = some pair ∧ pair.agree S their.bytes = .ok shared ∧
          mid = s.steppedToReceive S their shared) := by
  unfold reached
  by_cases hnew : isHandshake = false ∧ s.theirRatchet ≠ some their
  · obtain ⟨rfl, hother⟩ := hnew
    rw [if_pos (by rw [isNewRatchet_bytes.mpr hother]; rfl), receiveStep_eq_ok]
    constructor
    · rintro ⟨pair, shared, key, hpair, hbytes, hshared, rfl⟩
      obtain rfl := Octets.ext hbytes
      exact .inr ⟨rfl, hother, pair, shared, hpair, hshared, rfl⟩
    · rintro (⟨h | h, -⟩ | ⟨-, -, pair, shared, hpair, hshared, rfl⟩)
      · exact nomatch h
      · exact absurd h hother
      · exact ⟨pair, shared, their, hpair, rfl, hshared, rfl⟩
  · have hold : isHandshake = true ∨ s.theirRatchet = some their := by
      cases isHandshake with
      | true => exact .inl rfl
      | false => exact .inr (Classical.byContradiction fun h => hnew ⟨rfl, h⟩)
    have hno : (!isHandshake && s.isNewRatchet their.bytes) = false := by
      rw [Bool.and_eq_false_iff, Bool.not_eq_false']
      refine hold.imp_right fun h => Bool.eq_false_iff.mpr fun h' => isNewRatchet_bytes.mp h' h
    rw [hno, if_neg Bool.false_ne_true]
    constructor
    · intro h
      exact .inl ⟨hold, (Except.ok.inj h).symm⟩
    · rintro (⟨-, rfl⟩ | ⟨hno, hother, -⟩)
      · rfl
      · exact absurd ⟨hno, hother⟩ hnew

/-- Skipped keys have no part in which chain a message belongs to. -/
theorem reached_skipped {their : Key} (kept : List SkippedKey)
    (h : s.reached S their.bytes isHandshake = .ok mid) :
    ({ s with skipped := kept } : Session).reached S their.bytes isHandshake =
      .ok { mid with skipped := kept } := by
  refine reached_eq_ok.mpr ?_
  rcases reached_eq_ok.mp h with ⟨hknown, rfl⟩ | ⟨hno, hother, pair, shared, hpair, hshared, rfl⟩
  · exact .inl ⟨hknown, rfl⟩
  · exact .inr ⟨hno, hother, pair, shared, hpair, hshared, rfl⟩

/-- Stepping keeps the skipped keys. -/
theorem reached_skipped_eq {their : Key} (h : s.reached S their.bytes isHandshake = .ok mid) :
    mid.skipped = s.skipped := by
  rcases reached_eq_ok.mp h with ⟨-, rfl⟩ | ⟨-, -, pair, shared, -, -, rfl⟩ <;> rfl

/-! ## A position of the chain -/

/-- The session after a message at a position of its receiving chain was accepted, with the next
position and the keys that are kept. -/
def advanced (S : Suite) (s : Session) (chain : Key) (next : UInt32) (kept : List SkippedKey) :
    Session :=
  { s with
    receiveChain := some (nextChainKey S chain)
    receiveIndex := next
    skipped := kept }

/-- How far a position is ahead of the receiving chain. -/
def ahead (s : Session) (index : UInt32) : Nat := index.toNat - s.receiveIndex.toNat

/-- A message is at a position of a receiving chain: not behind it, not too far ahead of it, and
authentic under the key of the position. -/
structure OnChain (S : Suite) (config : Config) (s : Session) (body mac : Bytes)
    (m : Wire.RatchetMessage) (chain : Key) : Prop where
  receiveChain : s.receiveChain = some chain
  notBehind : s.receiveIndex.toNat ≤ m.chainIndex.toNat
  notAhead : s.ahead m.chainIndex ≤ config.maxSkip
  verifies :
    (MessageKeys.ofKey S (messageKeyAt S chain (s.ahead m.chainIndex))).verifies S body mac = true

/-- Such a message is deciphered, and the chain goes on behind it. -/
theorem OnChain.openOnChain_eq {chain : Key} (h : OnChain S config s body mac m chain) :
    s.openOnChain S config now body mac m = (do
      let plaintext ← openWith S
        (MessageKeys.ofKey S (messageKeyAt S chain (s.ahead m.chainIndex))) m.ciphertext
      let next ← nextIndex m.chainIndex
      return (plaintext, s.advanced S (chainKeyAt S chain (s.ahead m.chainIndex)) next
        (s.skipped ++ ((List.range (s.ahead m.chainIndex)).map (messageKeyAt S chain)).map
          (SkippedKey.mk now)))) := by
  have hnotBehind : ¬ m.chainIndex < s.receiveIndex :=
    mt UInt32.lt_iff_toNat_lt.mp (Nat.not_lt.mpr h.notBehind)
  have hnotAhead : ¬ s.ahead m.chainIndex > config.maxSkip := Nat.not_lt.mpr h.notAhead
  have hverifies := h.verifies
  unfold ahead at hnotAhead hverifies
  unfold messageKeyAt at hverifies
  simp only [openOnChain, h.receiveChain, passKeys_eq, List.reverse_nil, List.nil_append]
  rw [if_neg hnotBehind, if_neg hnotAhead, if_pos hverifies]
  rfl

/-- A message is at a position of the receiving chain, or it is refused, and no session is given up
for that. -/
theorem openOnChain_cases (S : Suite) (config : Config) (now : UInt64) (s : Session)
    (body mac : Bytes) (m : Wire.RatchetMessage) :
    (∃ chain, OnChain S config s body mac m chain) ∨
      ∃ cause, s.openOnChain S config now body mac m = .error cause ∧ cause.isFatal = false ∧
        (cause = .noReceiveChain ↔ s.receiveChain = none) := by
  unfold openOnChain
  cases hchain : s.receiveChain with
  | none => exact .inr ⟨_, rfl, rfl, iff_of_true rfl rfl⟩
  | some chain =>
    simp only [passKeys_eq, List.reverse_nil, List.nil_append]
    by_cases hbehind : m.chainIndex < s.receiveIndex
    · rw [if_pos hbehind]
      exact .inr ⟨_, rfl, rfl, iff_of_false nofun nofun⟩
    · rw [if_neg hbehind]
      by_cases hahead : m.chainIndex.toNat - s.receiveIndex.toNat > config.maxSkip
      · rw [if_pos hahead]
        exact .inr ⟨_, rfl, rfl, iff_of_false nofun nofun⟩
      · rw [if_neg hahead]
        split
        next hverifies =>
          have hle := Nat.le_of_not_lt (mt UInt32.lt_iff_toNat_lt.mpr hbehind)
          exact .inl ⟨chain, hchain, hle, Nat.le_of_not_lt hahead, hverifies⟩
        next => exact .inr ⟨_, rfl, rfl, iff_of_false nofun nofun⟩

/-- What opening a message along the chain needs, and the session that it leaves. -/
theorem openOnChain_eq_ok :
    s.openOnChain S config now body mac m = .ok (plaintext, after) ↔
      ∃ chain next, s.receiveChain = some chain ∧ s.receiveIndex.toNat ≤ m.chainIndex.toNat ∧
        s.ahead m.chainIndex ≤ config.maxSkip ∧
        (MessageKeys.ofKey S (messageKeyAt S chain (s.ahead m.chainIndex))).verifies S body mac ∧
        (MessageKeys.ofKey S (messageKeyAt S chain (s.ahead m.chainIndex))).decrypt S m.ciphertext
          = .ok plaintext ∧
        nextIndex m.chainIndex = .ok next ∧
        after = s.advanced S (chainKeyAt S chain (s.ahead m.chainIndex)) next
          (s.skipped ++ ((List.range (s.ahead m.chainIndex)).map (messageKeyAt S chain)).map
            (SkippedKey.mk now)) := by
  constructor
  · intro h
    rcases openOnChain_cases S config now s body mac m with ⟨chain, hon⟩ | ⟨cause, hno, -⟩
    · rw [hon.openOnChain_eq] at h
      obtain ⟨plaintext', hopen, h⟩ := bind_eq_ok.mp h
      obtain ⟨next, hnext, h⟩ := bind_eq_ok.mp h
      obtain ⟨rfl, rfl⟩ := Prod.mk.inj (Except.ok.inj h)
      exact ⟨chain, next, hon.receiveChain, hon.notBehind, hon.notAhead, hon.verifies,
        openWith_eq_ok.mp hopen, hnext, rfl⟩
    · exact nomatch hno.symm.trans h
  · rintro ⟨chain, next, hchain, hle, hskip, hverifies, hopen, hnext, rfl⟩
    have hon : OnChain S config s body mac m chain := ⟨hchain, hle, hskip, hverifies⟩
    rw [hon.openOnChain_eq, openWith_eq_ok.mpr hopen, ok_bind, hnext, ok_bind]
    rfl

/-! ## Whole messages -/

/-- Opening, with the chain of the message named. -/
theorem openMessage_eq (S : Suite) (config : Config) (now : UInt64) (s : Session) (payload : Bytes)
    (isHandshake : Bool) :
    s.openMessage S config now payload isHandshake = (do
      let (body, mac) ← (Wire.splitMac payload).mapError .wire
      let m ← (Wire.RatchetMessage.decode body).mapError .wire
      match ← (s.prune config now).openSkipped S body mac.bytes m.ciphertext with
      | some opened => return opened
      | none =>
        let mid ← (s.prune config now).reached S m.ratchetKey isHandshake
        let (plaintext, advanced) ← mid.openOnChain S config now body mac.bytes m
        return (plaintext, advanced.prune config now)) := by
  unfold openMessage reached
  refine bind_congr fun parts => bind_congr fun m => bind_congr fun opened => ?_
  cases opened with
  | some opened => rfl
  | none =>
    cases hnew : !isHandshake && (s.prune config now).isNewRatchet m.ratchetKey with
    | true => rfl
    | false => rfl

/-- A message is opened by a skipped key, or on the chain it belongs to. -/
theorem openMessage_eq_ok :
    s.openMessage S config now payload isHandshake = .ok (plaintext, after) ↔
      ∃ body mac m, Wire.splitMac payload = .ok (body, mac) ∧
        Wire.RatchetMessage.decode body = .ok m ∧
        ((s.prune config now).openSkipped S body mac.bytes m.ciphertext =
            .ok (some (plaintext, after)) ∨
          (s.prune config now).openSkipped S body mac.bytes m.ciphertext = .ok none ∧
          ∃ mid advanced, (s.prune config now).reached S m.ratchetKey isHandshake = .ok mid ∧
            mid.openOnChain S config now body mac.bytes m = .ok (plaintext, advanced) ∧
            after = advanced.prune config now) := by
  rw [openMessage_eq]
  constructor
  · intro h
    obtain ⟨⟨body, mac⟩, hsplit, h⟩ := bind_eq_ok.mp h
    obtain ⟨m, hdecode, h⟩ := bind_eq_ok.mp h
    obtain ⟨opened, hskipped, h⟩ := bind_eq_ok.mp h
    refine ⟨body, mac, m, mapError_eq_ok.mp hsplit, mapError_eq_ok.mp hdecode, ?_⟩
    cases opened with
    | some opened => exact .inl (hskipped.trans (congrArg _ (congrArg _ (Except.ok.inj h))))
    | none =>
      obtain ⟨mid, hmid, h⟩ := bind_eq_ok.mp h
      obtain ⟨⟨plaintext', advanced⟩, hopen, h⟩ := bind_eq_ok.mp h
      obtain ⟨rfl, rfl⟩ := Prod.mk.inj (Except.ok.inj h)
      exact .inr ⟨hskipped, mid, advanced, hmid, hopen, rfl⟩
  · rintro ⟨body, mac, m, hsplit, hdecode, hskipped | ⟨hskipped, mid, advanced, hmid, hopen, rfl⟩⟩
    · simp only [hsplit, hdecode, mapError_ok, ok_bind, hskipped]
      rfl
    · simp only [hsplit, hdecode, mapError_ok, ok_bind, hskipped, hmid, hopen]
      rfl

/-- What opening does to a session: it uses up a skipped key, goes on along the receiving chain, or
begins a new one under another ratchet key. -/
theorem openMessage_changes
    (h : s.openMessage S config now payload isHandshake = .ok (plaintext, after)) :
    (∃ kept, s.skipped ≠ [] ∧ after = { s with skipped := kept }) ∨
    (∃ chain next kept, (isHandshake = true ∨ s.isEstablished = true) ∧ s.receiveChain.isSome ∧
      after = s.advanced S chain next kept) ∨
    ∃ pair their shared chain next kept, s.theirRatchet ≠ some their ∧ s.ratchet = some pair ∧
      pair.agree S their.bytes = .ok shared ∧
      after = (s.steppedToReceive S their shared).advanced S chain next kept := by
  obtain ⟨body, mac, m, -, -, hskipped | ⟨-, mid, fin, hmid, hopen, rfl⟩⟩ := openMessage_eq_ok.mp h
  · obtain ⟨hsome, kept, rfl⟩ := openSkipped_eq_some hskipped
    refine .inl ⟨kept, fun hnone => hsome ?_, rfl⟩
    exact List.sublist_nil.mp (hnone ▸ prune_sublist config now s)
  · obtain ⟨chain, next, hchain, -, -, -, -, -, rfl⟩ := openOnChain_eq_ok.mp hopen
    unfold reached at hmid
    split at hmid
    next hnew =>
      obtain ⟨pair, shared, their, hpair, hbytes, hshared, rfl⟩ := receiveStep_eq_ok.mp hmid
      rw [hbytes, Bool.and_eq_true] at hnew
      exact .inr (.inr ⟨pair, their, shared, _, next, _, isNewRatchet_bytes.mp hnew.2, hpair,
        hshared, rfl⟩)
    next hstays =>
      obtain rfl := Except.ok.inj hmid
      refine .inr (.inl ⟨_, next, _, ?_, Option.isSome_iff_exists.mpr ⟨chain, hchain⟩, rfl⟩)
      cases isHandshake with
      | true => exact .inl rfl
      | false =>
        rw [Bool.not_false, Bool.true_and, Bool.not_eq_true, isNewRatchet, bne_eq_false_iff_eq]
          at hstays
        obtain ⟨their, htheir, -⟩ := Option.map_eq_some_iff.mp hstays
        exact .inr (Option.isSome_iff_exists.mpr ⟨their, htheir⟩)

/-- Opening touches the root and what receiving needs, and nothing else. -/
theorem openMessage_frame
    (h : s.openMessage S config now payload isHandshake = .ok (plaintext, after)) :
    after = { s with
      theirRatchet := after.theirRatchet
      root := after.root
      receiveChain := after.receiveChain
      receiveIndex := after.receiveIndex
      stepPending := after.stepPending
      skipped := after.skipped } := by
  rcases openMessage_changes h with ⟨_, -, rfl⟩ | ⟨_, _, _, -, -, rfl⟩ |
    ⟨_, _, _, _, _, _, -, -, -, rfl⟩
  · rfl
  · rfl
  · rfl

end Session

end EndToEnd

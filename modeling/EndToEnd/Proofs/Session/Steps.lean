import EndToEnd.Proofs.Session.Acceptance
import EndToEnd.Proofs.Session.Shape

/-!
# When a session takes a step

A session has two halves, one to send with and one to receive with, and a root that they share. Each
half is moved on in two ways: by one position of its chain, or by a step, which derives the next root
and begins a chain. The fields of a half are replaced together by a step and left together without
one, so the two ends of a conversation count the same steps.

Which of the two happens is decided by the session and the message alone. Sealing takes a step if the
peer's ratchet key is known and has not been answered with one of ours yet. Opening takes one for a
message of its own under another ratchet key than the known one, unless a kept key opens it.

Main statements:

- `SendStepDue.sealAs`, `goesOnSending_of_sealAs`: what sealing does to the sending half;
- `openMessage_byKey`, `openMessage_steps`: what opening does to the receiving half;
- `steps_when_due`: a step is taken exactly when it is due, with everything that belongs to it.
-/

namespace EndToEnd.Session

variable {S : Suite} {s mid after : Session} {env : Environment} {plaintext payload bytes : Bytes}
  {config : Config} {now : UInt64} {isHandshake : Bool} {m : Wire.RatchetMessage} {their : Key}

/-- A plaintext sealed as a message of its own, or inside a handshake message. -/
def sealAs (S : Suite) (isHandshake : Bool) (s : Session) (plaintext : Bytes) (env : Environment) :
    Except SessionError (Bytes × Session) × Environment :=
  if isHandshake then s.sealHandshake S plaintext env else s.sealMessage S plaintext env

/-- What a handshake message holds was sealed as a message of its own would be. -/
theorem exists_sealMessage_of_sealAs
    (h : (s.sealAs S isHandshake plaintext env).1 = .ok (bytes, after)) :
    (∃ payload, (s.sealMessage S plaintext env).1 = .ok (payload, after)) ∧
      (s.sealAs S isHandshake plaintext env).2 = (s.readied S env).2 := by
  cases isHandshake with
  | false =>
    refine ⟨⟨bytes, h⟩, ?_⟩
    show (s.sealMessage S plaintext env).2 = _
    rw [sealMessage_eq]
  | true =>
    refine ⟨exists_sealMessage_of_sealHandshake h, ?_⟩
    replace h : (s.sealHandshake S plaintext env).1 = .ok (bytes, after) := h
    show (s.sealHandshake S plaintext env).2 = _
    unfold sealHandshake at h ⊢
    split at h
    next => rw [sealMessage_eq]
    next => exact nomatch h

/-! ## The two halves -/

/-- The receiving half, which sealing leaves alone. -/
structure SameReceiving (s after : Session) : Prop where
  theirRatchet : after.theirRatchet = s.theirRatchet
  receiveChain : after.receiveChain = s.receiveChain
  receiveIndex : after.receiveIndex = s.receiveIndex
  skipped : after.skipped = s.skipped

/-- The sending half, which opening leaves alone. -/
structure SameSending (s after : Session) : Prop where
  ratchet : after.ratchet = s.ratchet
  sendChain : after.sendChain = s.sendChain
  sendIndex : after.sendIndex = s.sendIndex

/-- The peer's ratchet key is known and is to be answered, or there is no chain to send on. -/
def SendStepDue (s : Session) (their : Key) : Prop :=
  s.theirRatchet = some their ∧ (s.stepPending = true ∨ s.sendChain = none)

/-- The next root is derived from what a freshly drawn ratchet key of ours agrees on with the peer's;
the message is at the first position of the chain that this begins, and nothing is pending. -/
structure StepsToSend (S : Suite) (s : Session) (env : Environment) (their : Key)
    (after : Session) : Prop where
  derived : ∃ shared, (env.drawKeyPair S).1.agree S their.bytes = .ok shared ∧
    after.root = (RootStep.next S s.root shared).root ∧
    after.sendChain = some (nextChainKey S (RootStep.next S s.root shared).chain)
  ratchet : after.ratchet = some (env.drawKeyPair S).1
  settled : after.stepPending = false
  sendIndex : after.sendIndex = 1

/-- The message is at the next position of the sending chain, and the session is as it was besides. -/
structure GoesOnSending (S : Suite) (s after : Session) : Prop where
  root : after.root = s.root
  ratchet : after.ratchet = s.ratchet
  stepPending : after.stepPending = s.stepPending
  sendChain : ∃ chain, s.sendChain = some chain ∧ after.sendChain = some (nextChainKey S chain)
  sendIndex : after.sendIndex.toNat = s.sendIndex.toNat + 1

/-- A message opens a chain: it is one of its own, its ratchet key is not the known one, and no kept
key that is due opens it. -/
def ReceiveStepDue (S : Suite) (config : Config) (now : UInt64) (s : Session) (isHandshake : Bool)
    (m : Wire.RatchetMessage) (body mac : Bytes) : Prop :=
  isHandshake = false ∧ s.theirRatchet.map (·.bytes) ≠ some m.ratchetKey ∧
    ∀ k, s.Due config now k → k.opens S body mac = false

/-- The next root is derived from what our ratchet key agrees on with the message's, which is the
peer's from now on. The message is at its position of the chain that this begins, and an answer is
pending. -/
structure StepsToReceive (S : Suite) (s : Session) (m : Wire.RatchetMessage) (after : Session) :
    Prop where
  derived : ∃ pair shared, s.ratchet = some pair ∧ pair.agree S m.ratchetKey = .ok shared ∧
    after.root = (RootStep.next S s.root shared).root ∧
    after.receiveChain =
      some (chainKeyAt S (RootStep.next S s.root shared).chain (m.chainIndex.toNat + 1))
  theirRatchet : after.theirRatchet.map (·.bytes) = some m.ratchetKey
  pending : after.stepPending = true
  receiveIndex : after.receiveIndex.toNat = m.chainIndex.toNat + 1

/-- No step is taken. A message that a kept key opens leaves the receiving chain alone, and any other
leads to its position, which is ahead. -/
structure GoesOnReceiving (S : Suite) (config : Config) (now : UInt64) (s : Session)
    (m : Wire.RatchetMessage) (body mac : Bytes) (after : Session) : Prop where
  root : after.root = s.root
  theirRatchet : after.theirRatchet = s.theirRatchet
  stepPending : after.stepPending = s.stepPending
  ofKept : (∃ k, s.Due config now k ∧ k.opens S body mac = true) →
    after.receiveChain = s.receiveChain ∧ after.receiveIndex = s.receiveIndex
  onChain : (∀ k, s.Due config now k → k.opens S body mac = false) →
    s.receiveIndex.toNat < after.receiveIndex.toNat ∧
      after.receiveIndex.toNat = m.chainIndex.toNat + 1

/-! ## Sealing -/

theorem sendStepDue_eq_some_iff : s.sendStepDue = some their ↔ s.SendStepDue their := by
  unfold sendStepDue SendStepDue
  by_cases hdue : s.stepPending = true ∨ s.sendChain = none
  · rw [if_pos (by simpa using hdue), and_iff_left hdue]
  · rw [if_neg (by simpa using hdue)]
    constructor
    · intro h
      exact nomatch h
    · rintro ⟨-, h⟩
      exact absurd h hdue

/-- Sealing readies the session, and uses up one position of the sending chain that it has then. -/
theorem sealAs_cases (h : (s.sealAs S isHandshake plaintext env).1 = .ok (bytes, after)) :
    (s.sealAs S isHandshake plaintext env).2 = (s.readied S env).2 ∧
      ∃ mid chain next, (s.readied S env).1 = .ok mid ∧ mid.sendChain = some chain ∧
        next.toNat = mid.sendIndex.toNat + 1 ∧
        after = { mid with sendChain := some (nextChainKey S chain), sendIndex := next } := by
  obtain ⟨⟨payload, hsealed⟩, henv⟩ := exists_sealMessage_of_sealAs h
  obtain ⟨mid, hmid, hnext⟩ := sealMessage_eq_ok.mp hsealed
  obtain ⟨chain, pair, next, hchain, -, hindex, -, hafter⟩ := sealNext_eq_ok.mp hnext
  exact ⟨henv, mid, chain, next, hmid, hchain, nextIndex_eq_ok.mp hindex, hafter⟩

/-- Sealing leaves the receiving half and the keys of the handshake alone. -/
theorem sealAs_spares (h : (s.sealAs S isHandshake plaintext env).1 = .ok (bytes, after)) :
    SameReceiving s after ∧ SameHandshake s after := by
  obtain ⟨-, mid, chain, next, hmid, -, -, rfl⟩ := sealAs_cases h
  rcases readied_eq_ok.mp hmid with ⟨-, rfl⟩ | ⟨their, shared, -, -, rfl⟩
  · exact ⟨⟨rfl, rfl, rfl, rfl⟩, rfl, rfl, rfl⟩
  · exact ⟨⟨rfl, rfl, rfl, rfl⟩, rfl, rfl, rfl⟩

/-- Sealing takes the step that is due. -/
theorem SendStepDue.sealAs (hdue : s.SendStepDue their)
    (h : (s.sealAs S isHandshake plaintext env).1 = .ok (bytes, after)) :
    StepsToSend S s env their after ∧
      (s.sealAs S isHandshake plaintext env).2 = (env.drawKeyPair S).2 := by
  obtain ⟨henv, mid, chain, next, hmid, hchain, hnext, rfl⟩ := sealAs_cases h
  replace hdue := sendStepDue_eq_some_iff.mpr hdue
  rcases readied_eq_ok.mp hmid with ⟨hnone, -⟩ | ⟨other, shared, hother, hshared, rfl⟩
  · exact nomatch hdue.symm.trans hnone
  · obtain rfl := Option.some.inj (hdue.symm.trans hother)
    obtain rfl := Option.some.inj hchain
    refine ⟨⟨⟨shared, hshared, rfl, rfl⟩, rfl, rfl, UInt32.toNat_inj.mp hnext⟩, ?_⟩
    rw [henv, readied, hdue]

/-- Without a step that is due, sealing goes on by one position and draws nothing. -/
theorem goesOnSending_of_sealAs (hnone : ∀ their, ¬ s.SendStepDue their)
    (h : (s.sealAs S isHandshake plaintext env).1 = .ok (bytes, after)) :
    GoesOnSending S s after ∧ (s.sealAs S isHandshake plaintext env).2 = env := by
  obtain ⟨henv, mid, chain, next, hmid, hchain, hnext, rfl⟩ := sealAs_cases h
  rcases readied_eq_ok.mp hmid with ⟨hready, rfl⟩ | ⟨their, shared, hdue, -, -⟩
  · refine ⟨⟨rfl, rfl, rfl, ⟨chain, hchain, rfl⟩, hnext⟩, ?_⟩
    rw [henv, readied, hready]
  · exact absurd (sendStepDue_eq_some_iff.mp hdue) (hnone their)

/-! ## Opening -/

/-- A message is opened by one key: a kept one that is due, or the one at its position of its
chain. -/
theorem openMessage_byKey
    (h : s.openMessage S config now payload isHandshake = .ok (plaintext, after)) :
    ∃ body mac m key, Wire.splitMac payload = .ok (body, mac) ∧
      Wire.RatchetMessage.decode body = .ok m ∧ (MessageKeys.ofKey S key).mac S body = mac ∧
      (MessageKeys.ofKey S key).decrypt S m.ciphertext = .ok plaintext ∧
      ((∃ before entry behind, UsesSkipped S config now s key body before entry behind after) ∨
        ∃ mid chain, UsesChain S config now s key body m isHandshake mid chain after) := by
  obtain ⟨body, mac, m, hsplit, hdecode, hkept | hchain⟩ := openMessage_eq_ok.mp h
  · obtain ⟨key, before, entry, behind, hmac, hplain, huses⟩ := openSkipped_iff_usesSkipped.mp hkept
    exact ⟨body, mac, m, key, hsplit, hdecode, hmac, hplain, .inl ⟨before, entry, behind, huses⟩⟩
  · obtain ⟨key, mid, chain, hmac, hplain, huses⟩ := openOnChain_iff_usesChain.mp hchain
    exact ⟨body, mac, m, key, hsplit, hdecode, hmac, hplain, .inr ⟨mid, chain, huses⟩⟩

/-- Opening leaves the sending half and the keys of the handshake alone. -/
theorem openMessage_spares
    (h : s.openMessage S config now payload isHandshake = .ok (plaintext, after)) :
    SameSending s after ∧ SameHandshake s after := by
  rw [openMessage_frame h]
  exact ⟨⟨rfl, rfl, rfl⟩, rfl, rfl, rfl⟩

/-- A kept key that is used opens the message. -/
theorem UsesSkipped.opens {before behind : List SkippedKey} {entry : SkippedKey} {key : Key}
    {body : Bytes} (h : UsesSkipped S config now s key body before entry behind after) :
    entry.opens S body ((MessageKeys.ofKey S key).mac S body).bytes = true := by
  rw [opens_iff, h.key_eq]

/-- Where the key of a position is used, no kept key that is due opens the message. -/
theorem UsesChain.opens_false {key chain : Key} {body : Bytes} {k : SkippedKey}
    (h : UsesChain S config now s key body m isHandshake mid chain after)
    (hdue : s.Due config now k) :
    k.opens S body ((MessageKeys.ofKey S key).mac S body).bytes = false :=
  opens_eq_false_iff.mpr (h.unclaimed k (mem_prune_iff.mpr hdue))

/-- Opening takes the step that is due. -/
theorem UsesChain.stepsToReceive {key chain : Key} {body mac : Bytes}
    (h : UsesChain S config now s key body m isHandshake mid chain after)
    (hdue : s.ReceiveStepDue S config now isHandshake m body mac) : StepsToReceive S s m after := by
  obtain ⟨hown, hother, -⟩ := hdue
  obtain ⟨next, hnext, hafter⟩ := h.after_eq
  have hchain := h.receiveChain
  rw [hafter]
  cases h.readsOn with
  | known hknown =>
    rcases hknown with hwrapped | hsame
    · exact nomatch hown.symm.trans hwrapped
    · exact absurd hsame hother
  | @stepped their shared pair hunknown hbytes hpair hshared =>
    obtain rfl := Option.some.inj hchain
    refine ⟨⟨pair, shared, hpair, hshared, rfl, rfl⟩, ?_, rfl, hnext⟩
    rw [hbytes]
    rfl

/-- Without a step that is due, a message is opened ahead on the known chain. -/
theorem UsesChain.goesOnReceiving {key chain : Key} {body : Bytes}
    (h : UsesChain S config now s key body m isHandshake mid chain after)
    (hnot : ¬ s.ReceiveStepDue S config now isHandshake m body
      ((MessageKeys.ofKey S key).mac S body).bytes) :
    GoesOnReceiving S config now s m body ((MessageKeys.ofKey S key).mac S body).bytes after := by
  obtain ⟨next, hnext, hafter⟩ := h.after_eq
  have hbehind := h.notBehind
  rw [hafter]
  cases h.readsOn with
  | known hknown =>
    refine ⟨rfl, rfl, rfl, ?_, fun _ => ⟨?_, hnext⟩⟩
    · rintro ⟨k, hdue, hopens⟩
      exact nomatch hopens.symm.trans (h.opens_false hdue)
    · show s.receiveIndex.toNat < next.toNat
      omega
  | stepped hunknown =>
    exact absurd ⟨rfl, hunknown, fun k hdue => h.opens_false hdue⟩ hnot

/-- Opening takes the step that is due, and otherwise goes on without one. -/
theorem openMessage_steps
    (h : s.openMessage S config now payload isHandshake = .ok (plaintext, after)) :
    ∃ body mac m, Wire.splitMac payload = .ok (body, mac) ∧
      Wire.RatchetMessage.decode body = .ok m ∧
      (s.ReceiveStepDue S config now isHandshake m body mac.bytes → StepsToReceive S s m after) ∧
      (¬ s.ReceiveStepDue S config now isHandshake m body mac.bytes →
        GoesOnReceiving S config now s m body mac.bytes after) := by
  obtain ⟨body, mac, m, key, hsplit, hdecode, rfl, -, huses⟩ := openMessage_byKey h
  refine ⟨body, _, m, hsplit, hdecode, ?_⟩
  rcases huses with ⟨before, entry, behind, huses⟩ | ⟨mid, chain, huses⟩
  · -- a kept key opens it, so no step is due
    have hopens := huses.opens
    rw [huses.after_eq]
    refine ⟨?_, ?_⟩
    · rintro ⟨-, -, hnone⟩
      exact nomatch hopens.symm.trans (hnone entry huses.due)
    · intro _
      refine ⟨rfl, rfl, rfl, fun _ => ⟨rfl, rfl⟩, fun hnone => ?_⟩
      exact nomatch hopens.symm.trans (hnone entry huses.due)
  · exact ⟨huses.stepsToReceive, huses.goesOnReceiving⟩

/-- A step is taken exactly when it is due, and all that belongs to it is done at once: a send that
is due one draws a ratchet key, derives a root and starts over at the first position, with nothing
pending; a read that is due one takes over the ratchet key, derives a root and goes to the position
of the message, with an answer pending. Without a step the root, the ratchet keys and what is pending
stay, and the index of the half grows, or stays if a kept key was used. The other half and the keys of
the handshake are never touched. -/
theorem steps_when_due (S : Suite) (s : Session) :
    (∀ isHandshake plaintext env bytes after,
      (s.sealAs S isHandshake plaintext env).1 = .ok (bytes, after) →
        SameReceiving s after ∧ SameHandshake s after ∧
        (∀ their, s.SendStepDue their → StepsToSend S s env their after ∧
          (s.sealAs S isHandshake plaintext env).2 = (env.drawKeyPair S).2) ∧
        ((∀ their, ¬ s.SendStepDue their) → GoesOnSending S s after ∧
          (s.sealAs S isHandshake plaintext env).2 = env)) ∧
    ∀ config now payload isHandshake plaintext after,
      s.openMessage S config now payload isHandshake = .ok (plaintext, after) →
        SameSending s after ∧ SameHandshake s after ∧
        ∃ body mac m, Wire.splitMac payload = .ok (body, mac) ∧
          Wire.RatchetMessage.decode body = .ok m ∧
          (s.ReceiveStepDue S config now isHandshake m body mac.bytes →
            StepsToReceive S s m after) ∧
          (¬ s.ReceiveStepDue S config now isHandshake m body mac.bytes →
            GoesOnReceiving S config now s m body mac.bytes after) := by
  refine ⟨?_, ?_⟩
  · intro isHandshake plaintext env bytes after h
    obtain ⟨hreceiving, hhandshake⟩ := sealAs_spares h
    exact ⟨hreceiving, hhandshake, fun their hdue => hdue.sealAs h,
      fun hnone => goesOnSending_of_sealAs hnone h⟩
  · intro config now payload isHandshake plaintext after h
    obtain ⟨hsending, hhandshake⟩ := openMessage_spares h
    exact ⟨hsending, hhandshake, openMessage_steps h⟩

/-- The session that started a handshake reads the answer by a step, and takes another one when it
answers that. -/
theorem steps_when_due_answered : ∃ payload started answered responder,
    plainAnswered = .ok (payload, started, answered, responder) ∧
      SameSending started answered ∧ answered.theirRatchet ≠ started.theirRatchet ∧
      ∃ bytes after their,
        (answered.sealAs .plain false [8] (.ofSeed 0 [6])).1 = .ok (bytes, after) ∧
        StepsToSend .plain answered (.ofSeed 0 [6]) their after := by
  have hrun : ∃ run, plainAnswered = .ok run ∧
      run.2.2.1.theirRatchet ≠ run.2.1.theirRatchet ∧ run.2.2.1.stepPending = true ∧
      run.2.2.1.theirRatchet.isSome ∧
      ∃ sealed, (run.2.2.1.sealAs .plain false [8] (.ofSeed 0 [6])).1 = .ok sealed ∧ True := by
    decide +kernel
  obtain ⟨⟨payload, started, answered, responder⟩, hrun, hother, hpending, hknown, ⟨bytes, after⟩,
    hsealed, -⟩ := hrun
  refine ⟨payload, started, answered, responder, hrun, ?_, hother, ?_⟩
  · obtain ⟨_, -, hrun⟩ := bind_eq_ok.mp hrun
    obtain ⟨_, -, hrun⟩ := bind_eq_ok.mp hrun
    obtain ⟨_, -, hrun⟩ := bind_eq_ok.mp hrun
    obtain ⟨_, -, hrun⟩ := bind_eq_ok.mp hrun
    obtain ⟨_, hanswered, hrun⟩ := bind_eq_ok.mp hrun
    cases hrun
    exact ((steps_when_due .plain _).2 _ _ _ _ _ _ hanswered).1
  · obtain ⟨their, htheir⟩ := Option.isSome_iff_exists.mp hknown
    obtain ⟨-, -, hsteps, -⟩ := (steps_when_due .plain answered).1 _ _ _ _ _ hsealed
    exact ⟨bytes, after, their, hsealed, (hsteps their ⟨htheir, .inl hpending⟩).1⟩

end EndToEnd.Session

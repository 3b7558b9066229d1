import EndToEnd.Proofs.Primitive.Plain
import EndToEnd.Proofs.Session.LowOrder

/-!
# The shape of a session

Which of its keys a session has depends on little: on the side that started the handshake, and on
whether either side has answered. What is there is never lost, a sending chain comes with a ratchet
key of ours and a receiving chain with one of the peer's, so of the refusals that say that the
session itself lacks something, one never comes up and the other two say what they are named for.

Main statements:

- `Shaped.operates`: every operation keeps the shape;
- `shape_run`: the shape of every session that is reached, and what it is never refused for.
-/

namespace EndToEnd.Session

variable {S : Suite} {start s mid after : Session} {env : Environment}
  {plaintext payload bytes : Bytes} {config : Config} {now : UInt64} {isHandshake : Bool}
  {first : Option Key} {refusal : SessionError}

/-! ## The shape -/

/-- The same three keys of the handshake. -/
def SameHandshake (start s : Session) : Prop :=
  s.identity = start.identity ∧ s.ephemeral = start.ephemeral ∧ s.theirOneTime = start.theirOneTime

/-- Which keys a session has. -/
structure Shaped (s : Session) : Prop where
  /-- The keys of the handshake are there on the side that started it. -/
  identity : s.identity.isSome = s.isInitiator
  theirOneTime : s.theirOneTime.isSome = s.isInitiator
  /-- The side that started the handshake can send. -/
  sends : s.isInitiator = true → s.ratchet.isSome
  /-- The other side has been sent a ratchet key. -/
  receives : s.isInitiator = false → s.isEstablished = true
  /-- Each chain has a ratchet key that names it. -/
  sendChain : s.sendChain.isSome = s.ratchet.isSome
  receiveChain : s.receiveChain.isSome = s.isEstablished
  pending : s.stepPending = true → s.ratchet.isSome ∧ s.theirRatchet.isSome
  /-- Without a receiving chain no position was passed over. -/
  skipped : s.isEstablished = false → s.skipped = []

/-- The side that started the handshake has the keys that its handshake messages repeat. -/
theorem Shaped.exists_keys (h : s.Shaped) (hside : s.isInitiator = true) :
    ∃ identity ephemeral oneTime, s.identity = some identity ∧ s.ephemeral = some ephemeral ∧
      s.theirOneTime = some oneTime := by
  obtain ⟨ephemeral, hephemeral⟩ := Option.isSome_iff_exists.mp hside
  obtain ⟨identity, hidentity⟩ := Option.isSome_iff_exists.mp (h.identity.trans hside)
  obtain ⟨oneTime, honeTime⟩ := Option.isSome_iff_exists.mp (h.theirOneTime.trans hside)
  exact ⟨identity, ephemeral, oneTime, hidentity, hephemeral, honeTime⟩

/-- Each side starts with the keys of its side. -/
theorem Starts.shaped (h : Starts S first s) : s.Shaped ∧ s.isInitiator = first.isNone := by
  cases h with
  | initiator => exact ⟨⟨rfl, rfl, fun _ => rfl, nofun, rfl, rfl, nofun, fun _ => rfl⟩, rfl⟩
  | responder started =>
    obtain ⟨key, -, started⟩ := bind_eq_ok.mp started
    obtain rfl := Except.ok.inj started
    exact ⟨⟨rfl, rfl, nofun, fun _ => rfl, rfl, rfl, nofun, nofun⟩, rfl⟩

/-- Sealing keeps the shape. -/
theorem Shaped.of_sealMessage (h : s.Shaped)
    (hsealed : (s.sealMessage S plaintext env).1 = .ok (payload, after)) : after.Shaped := by
  rcases sealMessage_changes hsealed with ⟨_, _, -, hratchet, rfl⟩ | ⟨_, _, _, _, -, rfl⟩
  · exact { h with sends := fun _ => hratchet, sendChain := hratchet.symm }
  · exact { h with sends := fun _ => rfl, sendChain := rfl, pending := nofun }

/-- Opening a message keeps the shape. -/
theorem Shaped.of_openMessage (h : s.Shaped)
    (hopened : s.openMessage S config now payload isHandshake = .ok (plaintext, after)) :
    after.Shaped := by
  rcases openMessage_changes hopened with ⟨_, hsome, rfl⟩ | ⟨_, _, _, -, hchain, rfl⟩ |
    ⟨pair, _, _, _, _, _, -, hpair, -, rfl⟩
  · exact { h with skipped := fun hnew => absurd (h.skipped hnew) hsome }
  · have hknown : s.isEstablished = true := h.receiveChain.symm.trans hchain
    exact { h with
      receiveChain := hknown.symm
      skipped := fun hnew => absurd (hknown.symm.trans hnew) nofun }
  · exact { h with
      receives := fun _ => rfl
      receiveChain := rfl
      pending := fun _ => ⟨Option.isSome_iff_exists.mpr ⟨pair, hpair⟩, rfl⟩
      skipped := nofun }

/-- No operation touches the keys of the handshake. -/
theorem sameHandshake_of_operates (ho : Operates S s after) : SameHandshake s after := by
  rcases ho.cases with ⟨_, _, _, hsealed⟩ | ⟨_, _, _, _, _, hopened⟩
  · rcases sealMessage_changes hsealed with ⟨_, _, -, -, rfl⟩ | ⟨_, _, _, _, -, rfl⟩
    · exact ⟨rfl, rfl, rfl⟩
    · exact ⟨rfl, rfl, rfl⟩
  · rw [openMessage_frame hopened]
    exact ⟨rfl, rfl, rfl⟩

/-- Every operation keeps the shape. -/
theorem Shaped.operates (h : s.Shaped) (ho : Operates S s after) : after.Shaped := by
  rcases ho.cases with ⟨_, _, _, hsealed⟩ | ⟨_, _, _, _, _, hopened⟩
  · exact h.of_sealMessage hsealed
  · exact h.of_openMessage hopened

/-- So do all of them in a row, on the same keys of the handshake. -/
theorem shaped_run (hstart : start.Shaped) (hrun : Relation.ReflTransGen (Operates S) start s) :
    s.Shaped ∧ SameHandshake start s := by
  induction hrun with
  | refl => exact ⟨hstart, rfl, rfl, rfl⟩
  | tail _ ho ih =>
    obtain ⟨hshaped, hidentity, hephemeral, honeTime⟩ := ih
    obtain ⟨hidentity', hephemeral', honeTime'⟩ := sameHandshake_of_operates ho
    exact ⟨hshaped.operates ho, hidentity'.trans hidentity, hephemeral'.trans hephemeral,
      honeTime'.trans honeTime⟩

/-! ## Why sealing is refused -/

/-- A position is refused for one cause only. -/
theorem nextIndex_refusal {index : UInt32} (h : nextIndex index = .error refusal) :
    refusal = .indexOverflow := by
  unfold nextIndex at h
  split at h
  next => exact (Except.error.inj h).symm
  next => exact nomatch h

/-- What sealing can be refused for. -/
theorem sealNext_refusal (h : s.sealNext S plaintext = .error refusal) :
    (refusal = .noSendChain ∧ (s.sendChain = none ∨ s.ratchet = none)) ∨
      refusal = .indexOverflow ∨ ∃ cause, refusal = .wire cause := by
  unfold sealNext at h
  split at h
  next =>
    rcases bind_eq_error.mp h with hnext | ⟨next, -, h⟩
    · exact .inr (.inl (nextIndex_refusal hnext))
    · rcases bind_eq_error.mp h with hwire | ⟨payload, -, h⟩
      · obtain ⟨cause, -, rfl⟩ := mapError_eq_error.mp hwire
        exact .inr (.inr ⟨cause, rfl⟩)
      · exact nomatch h
  next hmissing =>
    refine .inl ⟨(Except.error.inj h).symm, ?_⟩
    cases hchain : s.sendChain with
    | none => exact .inl rfl
    | some chain =>
      cases hratchet : s.ratchet with
      | none => exact .inr rfl
      | some pair =>
        exact absurd (hmissing chain pair.publicKey hchain (by rw [ratchetPublic, hratchet]; rfl)) id

/-- A session that is not ready could not agree. -/
theorem readied_refusal (h : (s.readied S env).1 = .error refusal) :
    ∃ cause, refusal = .crypto cause := by
  unfold readied at h
  split at h
  next => exact nomatch h
  next their hdue =>
    rcases bind_eq_error.mp h with hcrypto | ⟨shared, -, h⟩
    · obtain ⟨cause, -, rfl⟩ := mapError_eq_error.mp hcrypto
      exact ⟨cause, rfl⟩
    · exact nomatch h

/-- A session of this shape is ready to send, once the agreement succeeds. -/
theorem Shaped.of_readied (h : s.Shaped) (hmid : (s.readied S env).1 = .ok mid) :
    mid.sendChain.isSome ∧ mid.ratchet.isSome := by
  rcases readied_eq_ok.mp hmid with ⟨hready, rfl⟩ | ⟨their, shared, -, -, rfl⟩
  · have hchain : mid.sendChain.isSome := by
      cases hside : mid.isInitiator with
      | true => exact h.sendChain.trans (h.sends hside)
      | false =>
        rw [Option.isSome_iff_ne_none]
        intro hnone
        have hdue : mid.sendStepDue = mid.theirRatchet := by
          rw [sendStepDue, hnone, Option.isNone_none, Bool.or_true, if_pos rfl]
        have hknown : mid.theirRatchet.isSome := h.receives hside
        rw [← hdue, hready] at hknown
        exact absurd hknown Bool.false_ne_true
    exact ⟨hchain, h.sendChain.symm.trans hchain⟩
  · exact ⟨rfl, rfl⟩

/-- Sealing is refused for want of an agreement, for a chain that is at its end, or for a message
that is too long, and for nothing that the session lacks. -/
theorem Shaped.sealMessage_refusal (h : s.Shaped)
    (hrefused : (s.sealMessage S plaintext env).1 = .error refusal) :
    (∃ cause, refusal = .crypto cause) ∨ refusal = .indexOverflow ∨
      ∃ cause, refusal = .wire cause := by
  rw [sealMessage_eq] at hrefused
  rcases bind_eq_error.mp hrefused with hcrypto | ⟨mid, hmid, hnext⟩
  · exact .inl (readied_refusal hcrypto)
  · obtain ⟨hchain, hratchet⟩ := h.of_readied hmid
    rcases sealNext_refusal hnext with ⟨-, hnone | hnone⟩ | hother
    · rw [hnone] at hchain
      exact absurd hchain Bool.false_ne_true
    · rw [hnone] at hratchet
      exact absurd hratchet Bool.false_ne_true
    · exact .inr hother

/-- A handshake message is refused to a session that has not started the handshake, and otherwise
only for what sealing is refused for. -/
theorem Shaped.sealHandshake_refusal (h : s.Shaped)
    (hrefused : (s.sealHandshake S plaintext env).1 = .error refusal) :
    (s.isInitiator = false ∧ refusal = .notInitiator) ∨ s.isInitiator = true ∧
      ((∃ cause, refusal = .crypto cause) ∨ refusal = .indexOverflow ∨
        ∃ cause, refusal = .wire cause) := by
  unfold sealHandshake at hrefused
  split at hrefused
  next _ ephemeral _ _ hephemeral _ =>
    refine .inr ⟨Option.isSome_iff_exists.mpr ⟨ephemeral, hephemeral⟩, ?_⟩
    rcases bind_eq_error.mp hrefused with hsealed | ⟨⟨payload, after⟩, -, hrefused⟩
    · exact h.sealMessage_refusal hsealed
    · rcases bind_eq_error.mp hrefused with hwire | ⟨bytes, -, hrefused⟩
      · obtain ⟨cause, -, rfl⟩ := mapError_eq_error.mp hwire
        exact .inr (.inr ⟨cause, rfl⟩)
      · exact nomatch hrefused
  next hmissing =>
    refine .inl ⟨?_, (Except.error.inj hrefused).symm⟩
    rw [Bool.eq_false_iff]
    intro hside
    obtain ⟨identity, ephemeral, oneTime, hidentity, hephemeral, honeTime⟩ := h.exists_keys hside
    exact hmissing identity ephemeral oneTime hidentity hephemeral honeTime

/-- A handshake message is refused to the side that has not started it, and to no other. -/
theorem Shaped.sealHandshake_eq_notInitiator (h : s.Shaped) :
    (s.sealHandshake S plaintext env).1 = .error .notInitiator ↔ s.isInitiator = false := by
  constructor
  · intro hrefused
    rcases h.sealHandshake_refusal hrefused with ⟨hside, -⟩ | ⟨-, ⟨_, hno⟩ | hno | ⟨_, hno⟩⟩
    · exact hside
    · exact nomatch hno
    · exact nomatch hno
    · exact nomatch hno
  · intro hside
    have hephemeral : s.ephemeral = none :=
      Option.isNone_iff_eq_none.mp (Option.isSome_eq_false_iff.mp hside)
    unfold sealHandshake
    split
    next heq _ => exact nomatch hephemeral.symm.trans heq
    next => rfl

/-! ## Opening without a receiving chain -/

/-- A kept key that opens a message may fail to decipher it, and no more. -/
theorem openSkipped_refusal {body mac ciphertext : Bytes}
    (h : s.openSkipped S body mac ciphertext = .error refusal) :
    ∃ reason, refusal = .rejected reason := by
  rcases openSkipped_cases S s body mac ciphertext with ⟨-, hnone⟩ | ⟨k, -, -, i, hsome⟩
  · exact nomatch hnone.symm.trans h
  · rw [hsome] at h
    cases hopen : openWith S (MessageKeys.ofKey S k.key) ciphertext with
    | ok found => rw [hopen] at h; exact nomatch h
    | error cause =>
      obtain ⟨reason, -, rfl⟩ := mapError_eq_error.mp hopen
      rw [hopen] at h
      exact ⟨_, (Except.error.inj h).symm⟩

/-- A receiving step comes too early or cannot agree. -/
theorem receiveStep_refusal {their : Bytes} (h : s.receiveStep S their = .error refusal) :
    (∃ reason, refusal = .rejected reason) ∨ ∃ cause, refusal = .crypto cause := by
  unfold receiveStep at h
  split at h
  next => exact .inl ⟨_, (Except.error.inj h).symm⟩
  next =>
    rcases bind_eq_error.mp h with hcrypto | ⟨shared, -, h⟩
    · obtain ⟨cause, -, rfl⟩ := mapError_eq_error.mp hcrypto
      exact .inr ⟨cause, rfl⟩
    · rcases bind_eq_error.mp h with hcrypto | ⟨their, -, h⟩
      · obtain ⟨cause, -, rfl⟩ := mapError_eq_error.mp hcrypto
        exact .inr ⟨cause, rfl⟩
      · exact nomatch h

/-- Only without a chain is there said to be none. -/
theorem openOnChain_eq_noReceiveChain {body mac : Bytes} {m : Wire.RatchetMessage} :
    s.openOnChain S config now body mac m = .error .noReceiveChain ↔ s.receiveChain = none := by
  rcases openOnChain_cases S config now s body mac m with ⟨chain, hon⟩ | ⟨cause, hrefused, -, hcause⟩
  · rw [hon.openOnChain_eq, hon.receiveChain]
    refine iff_of_false ?_ nofun
    intro h
    rcases bind_eq_error.mp h with hopen | ⟨plaintext, -, h⟩
    · obtain ⟨cause, -, hno⟩ := mapError_eq_error.mp hopen
      exact nomatch hno
    · rcases bind_eq_error.mp h with hnext | ⟨next, -, h⟩
      · exact nomatch nextIndex_refusal hnext
      · exact nomatch h
  · rw [hrefused, ← hcause]
    exact ⟨Except.error.inj, congrArg Except.error⟩

/-- Only the chain of a message is refused so. -/
def OfChain : SessionError → Prop
  | .noReceiveChain | .tooManySkipped _ _ _ | .indexOverflow => True
  | _ => False

/-- Such a refusal says that opening got as far as the chain: the bytes are a message, no skipped key
opens it, and its chain is there or a receiving step makes it. -/
theorem openMessage_eq_ofChain (hrefusal : OfChain refusal) :
    s.openMessage S config now payload isHandshake = .error refusal ↔
      ∃ body mac m mid, Wire.splitMac payload = .ok (body, mac) ∧
        Wire.RatchetMessage.decode body = .ok m ∧
        (∀ k ∈ (s.prune config now).skipped, k.opens S body mac.bytes = false) ∧
        (s.prune config now).reached S m.ratchetKey isHandshake = .ok mid ∧
        mid.openOnChain S config now body mac.bytes m = .error refusal := by
  rw [openMessage_eq]
  constructor
  · -- every refusal in front of the chain has another cause
    intro h
    rcases bind_eq_error.mp h with hno | ⟨⟨body, mac⟩, hsplit, h⟩
    · obtain ⟨cause, -, rfl⟩ := mapError_eq_error.mp hno
      exact hrefusal.elim
    rcases bind_eq_error.mp h with hno | ⟨m, hdecode, h⟩
    · obtain ⟨cause, -, rfl⟩ := mapError_eq_error.mp hno
      exact hrefusal.elim
    rcases bind_eq_error.mp h with hskipped | ⟨opened, hskipped, h⟩
    · obtain ⟨reason, rfl⟩ := openSkipped_refusal hskipped
      exact hrefusal.elim
    cases opened with
    | some opened => exact nomatch h
    | none =>
      rcases bind_eq_error.mp h with hstep | ⟨mid, hmid, h⟩
      · unfold reached at hstep
        split at hstep
        next =>
          rcases receiveStep_refusal hstep with ⟨reason, rfl⟩ | ⟨cause, rfl⟩
          · exact hrefusal.elim
          · exact hrefusal.elim
        next => exact nomatch hstep
      · refine ⟨body, mac, m, mid, mapError_eq_ok.mp hsplit, mapError_eq_ok.mp hdecode,
          openSkipped_eq_none.mp hskipped, hmid, ?_⟩
        rcases bind_eq_error.mp h with hopen | ⟨opened, -, h⟩
        · exact hopen
        · exact nomatch h
  · rintro ⟨body, mac, m, mid, hsplit, hdecode, hskipped, hmid, hopen⟩
    simp only [hsplit, hdecode, mapError_ok, ok_bind, openSkipped_eq_none.mpr hskipped, hmid, hopen,
      error_bind]

/-- Opening gets as far as asking for a receiving chain that is not there, if the bytes are a message,
no skipped key opens it, and no receiving step makes a chain for it. -/
theorem openMessage_eq_noReceiveChain :
    s.openMessage S config now payload isHandshake = .error .noReceiveChain ↔
      ∃ body mac m mid, Wire.splitMac payload = .ok (body, mac) ∧
        Wire.RatchetMessage.decode body = .ok m ∧
        (∀ k ∈ (s.prune config now).skipped, k.opens S body mac.bytes = false) ∧
        (s.prune config now).reached S m.ratchetKey isHandshake = .ok mid ∧
        mid.receiveChain = none := by
  have hrefusal : OfChain .noReceiveChain := trivial
  rw [openMessage_eq_ofChain hrefusal]
  simp only [openOnChain_eq_noReceiveChain]

/-- The bytes of a ratchet message with an authenticator, whether or not it is right. -/
def IsMessage (payload : Bytes) : Prop :=
  ∃ body mac m, Wire.splitMac payload = .ok (body, mac) ∧ Wire.RatchetMessage.decode body = .ok m

/-- The chain of the peer is missed exactly by a message inside a handshake message that comes before
the peer has answered. -/
theorem Shaped.openMessage_eq_noReceiveChain (h : s.Shaped) :
    s.openMessage S config now payload isHandshake = .error .noReceiveChain ↔
      s.isEstablished = false ∧ isHandshake = true ∧ IsMessage payload := by
  rw [Session.openMessage_eq_noReceiveChain]
  constructor
  · rintro ⟨body, mac, m, mid, hsplit, hdecode, -, hmid, hnone⟩
    unfold reached at hmid
    split at hmid
    next =>
      obtain ⟨_, _, _, -, -, -, rfl⟩ := receiveStep_eq_ok.mp hmid
      cases hnone
    next hstays =>
      obtain rfl := Except.ok.inj hmid
      have hnew : s.isEstablished = false := by
        rw [← h.receiveChain, show s.receiveChain = none from hnone, Option.isSome_none]
      refine ⟨hnew, ?_, body, mac, m, hsplit, hdecode⟩
      have hunknown : s.theirRatchet = none := by
        rw [isEstablished, Option.isSome_eq_false_iff] at hnew
        exact Option.isNone_iff_eq_none.mp hnew
      cases isHandshake with
      | true => rfl
      | false =>
        -- no key is the peer's yet, so a message of its own takes a step
        refine absurd ?_ hstays
        show s.isNewRatchet m.ratchetKey = true
        rw [isNewRatchet, hunknown]
        rfl
  · rintro ⟨hnew, rfl, body, mac, m, hsplit, hdecode⟩
    have hchain : s.receiveChain = none := by
      have hnone := h.receiveChain.trans hnew
      rw [Option.isSome_eq_false_iff] at hnone
      exact Option.isNone_iff_eq_none.mp hnone
    have hskipped : (s.prune config now).skipped = [] :=
      List.sublist_nil.mp (h.skipped hnew ▸ prune_sublist config now s)
    refine ⟨body, mac, m, s.prune config now, hsplit, hdecode, ?_, rfl, hchain⟩
    rw [hskipped]
    exact fun k hk => absurd hk List.not_mem_nil

/-! ## Every session that is reached -/

/-- A session keeps the keys of its handshake and its shape, whatever it has been through. So sealing
never lacks a chain, a handshake message is refused as such exactly to the side that did not start
the handshake, and opening lacks a chain only before the peer has answered. -/
theorem shape_run (hstart : Starts S first start)
    (hrun : Relation.ReflTransGen (Operates S) start s) :
    SameHandshake start s ∧ s.Shaped ∧ s.isInitiator = first.isNone ∧
    (∀ plaintext env, (s.sealMessage S plaintext env).1 ≠ .error .noSendChain ∧
      (s.sealHandshake S plaintext env).1 ≠ .error .noSendChain) ∧
    (∀ plaintext env,
      (s.sealHandshake S plaintext env).1 = .error .notInitiator ↔ first.isSome) ∧
    ∀ config now payload isHandshake,
      s.openMessage S config now payload isHandshake = .error .noReceiveChain ↔
        first = none ∧ s.isEstablished = false ∧ isHandshake = true ∧ IsMessage payload := by
  obtain ⟨hshaped, hside⟩ := hstart.shaped
  obtain ⟨h, hsame⟩ := shaped_run hshaped hrun
  have hside : s.isInitiator = first.isNone := by
    rw [isInitiator, hsame.2.1]
    exact hside
  refine ⟨hsame, h, hside, fun plaintext env => ⟨fun hno => ?_, fun hno => ?_⟩,
    fun plaintext env => ?_, fun config now payload isHandshake => ?_⟩
  · rcases h.sealMessage_refusal hno with ⟨_, hno⟩ | hno | ⟨_, hno⟩ <;> exact nomatch hno
  · rcases h.sealHandshake_refusal hno with ⟨-, hno⟩ | ⟨-, ⟨_, hno⟩ | hno | ⟨_, hno⟩⟩ <;>
      exact nomatch hno
  · rw [h.sealHandshake_eq_notInitiator, hside, Option.isNone_eq_false_iff]
  · rw [h.openMessage_eq_noReceiveChain]
    constructor
    · rintro ⟨hnew, hmessage⟩
      refine ⟨?_, hnew, hmessage⟩
      cases first with
      | none => rfl
      | some their => exact nomatch hnew.symm.trans (h.receives hside)
    · exact fun ⟨_, hnew, hmessage⟩ => ⟨hnew, hmessage⟩

/-- The session of the side that starts a handshake on the plain suite. -/
def plainStart : Session :=
  .initiator .plain [] ⟨.replicate 32 1, some (.replicate 32 1)⟩
    ⟨.replicate 32 2, some (.replicate 32 2)⟩ (.replicate 32 3)
    ⟨.replicate 32 4, some (.replicate 32 4)⟩

/-- Its first message, the session then, the session when that is answered, and the one that
answers. -/
def plainAnswered : Except SessionError (Bytes × Session × Session × Session) := do
  let responder ← (responder .plain [] (Octets.replicate 32 4).bytes).mapError .crypto
  let (payload, started) ← (plainStart.sealMessage .plain [9] (.ofSeed 0)).1
  let (_, responder) ← responder.openMessage .plain {} 0 payload true
  let (answer, responder) ← (responder.sealMessage .plain [7] (.ofSeed 0 [5])).1
  let (_, answered) ← started.openMessage .plain {} 0 answer false
  return (payload, started, answered, responder)

/-- The initiator before and after the first answer, and the responder that gives it. -/
theorem shape_run_answered : ∃ payload started answered responder,
    plainAnswered = .ok (payload, started, answered, responder) ∧
      started.openMessage .plain {} 0 payload true = .error .noReceiveChain ∧
      answered.isEstablished = true ∧ answered.Shaped ∧ answered.isInitiator = true ∧
      responder.stepPending = false ∧ responder.Shaped ∧
      (responder.sealHandshake .plain [8] (.ofSeed 0)).1 = .error .notInitiator := by
  have hrun : ∃ run, plainAnswered = .ok run ∧ run.2.1.isEstablished = false ∧
      run.2.2.1.isEstablished = true ∧ run.2.2.2.stepPending = false ∧
      ∃ cut, Wire.splitMac run.1 = .ok cut ∧ ∃ m, Wire.RatchetMessage.decode cut.1 = .ok m ∧
        m.chainIndex = 0 := by
    decide +kernel
  obtain ⟨⟨payload, started, answered, after⟩, hrun, hnew, hknown, hready, ⟨body, mac⟩, hsplit, m,
    hdecode, -⟩ := hrun
  refine ⟨payload, started, answered, after, hrun, ?_⟩
  obtain ⟨responder, hresponder, hrun⟩ := bind_eq_ok.mp hrun
  obtain ⟨⟨payload', started'⟩, hsealed, hrun⟩ := bind_eq_ok.mp hrun
  obtain ⟨⟨_, opened⟩, hopened, hrun⟩ := bind_eq_ok.mp hrun
  obtain ⟨⟨answer, after'⟩, hanswer, hrun⟩ := bind_eq_ok.mp hrun
  obtain ⟨⟨_, answered'⟩, hanswered, hrun⟩ := bind_eq_ok.mp hrun
  cases hrun
  have hstarted : Relation.ReflTransGen (Operates .plain) plainStart started :=
    .tail .refl (.sealed hsealed)
  have hinitiator := shape_run .initiator (hstarted.tail (.opened hanswered))
  have hresponded := shape_run (.responder (mapError_eq_ok.mp hresponder))
    (.tail (.tail .refl (.opened hopened)) (.sealed hanswer))
  exact ⟨((shape_run .initiator hstarted).2.2.2.2.2 {} 0 payload true).mpr
      ⟨rfl, hnew, rfl, body, mac, m, hsplit, hdecode⟩, hknown, hinitiator.2.1, hinitiator.2.2.1,
    hready, hresponded.2.1, (hresponded.2.2.2.2.1 [8] _).mpr rfl⟩

end EndToEnd.Session

import EndToEnd.Proofs.Session.Opening
import EndToEnd.Proofs.Session.Room
import Mathlib.Logic.Relation

/-!
# Sessions and keys that contribute nothing

The ratchet key of the peer becomes known in two places. A receiving step agrees with it first, so a
key that contributes nothing is refused there. A responder's session is started with it as it comes,
and the first agreement with it is the first sending step: if the key contributes nothing, that step
is refused, there is never a ratchet key of our own, and so no receiving step gets past the key.

So whatever the peer sends and whatever a session has been through, the first key of a responder
decides whether it can send.

Main statements:

- `Able.operates`, `Stuck.operates`: what every operation keeps;
- `Reached.able`, `Reached.stuck`: what holds of every session that is reached;
- `Reached.sealMessage_refused_iff`: when no message can be sealed for want of an agreement.
-/

namespace EndToEnd.Session

variable {S : Suite} {s mid after : Session} {env : Environment} {plaintext payload bytes : Bytes}
  {config : Config} {now : UInt64} {isHandshake : Bool} {first : Option Key} {their : Key}

/-- A session as a side of a handshake starts it, and the peer's ratchet key that it starts with. -/
inductive Starts (S : Suite) : Option Key → Session → Prop
  | initiator {secret : Bytes} {identity ephemeral : KeyPair} {theirOneTime : Key}
      {ratchet : KeyPair} :
      Starts S none (initiator S secret identity ephemeral theirOneTime ratchet)
  | responder {secret : Bytes} {their : Key} {session : Session}
      (started : responder S secret their.bytes = .ok session) : Starts S (some their) session

/-- An operation that succeeds, on whatever bytes, in whatever environment and at whatever time. -/
inductive Operates (S : Suite) (s : Session) : Session → Prop
  | sealed {plaintext bytes : Bytes} {env : Environment} {after : Session}
      (h : (s.sealMessage S plaintext env).1 = .ok (bytes, after)) : Operates S s after
  | sealedHandshake {plaintext bytes : Bytes} {env : Environment} {after : Session}
      (h : (s.sealHandshake S plaintext env).1 = .ok (bytes, after)) : Operates S s after
  | opened {config : Config} {now : UInt64} {payload : Bytes} {isHandshake : Bool}
      {plaintext : Bytes} {after : Session}
      (h : s.openMessage S config now payload isHandshake = .ok (plaintext, after)) :
      Operates S s after

/-- A session that is reached from one that was started with a key. -/
def Reached (S : Suite) (first : Option Key) (s : Session) : Prop :=
  ∃ start, Starts S first start ∧ Relation.ReflTransGen (Operates S) start s

theorem Starts.reached (h : Starts S first s) : Reached S first s := ⟨s, h, .refl⟩

theorem Reached.operates (h : Reached S first s) (ho : Operates S s after) :
    Reached S first after := by
  obtain ⟨start, hstart, hrun⟩ := h
  exact ⟨start, hstart, hrun.tail ho⟩

/-! ## Sealing and opening -/

/-- Sealing is readying the session, and then sealing in it. -/
theorem sealMessage_eq_ok :
    (s.sealMessage S plaintext env).1 = .ok (payload, after) ↔
      ∃ mid, (s.readied S env).1 = .ok mid ∧ mid.sealNext S plaintext = .ok (payload, after) := by
  rw [sealMessage_eq, bind_eq_ok]

/-- A handshake message holds a message that was sealed. -/
theorem exists_sealMessage_of_sealHandshake
    (h : (s.sealHandshake S plaintext env).1 = .ok (bytes, after)) :
    ∃ payload, (s.sealMessage S plaintext env).1 = .ok (payload, after) := by
  unfold sealHandshake at h
  split at h
  next =>
    obtain ⟨⟨payload, after'⟩, hsealed, h⟩ := bind_eq_ok.mp h
    obtain ⟨bytes', -, h⟩ := bind_eq_ok.mp h
    obtain ⟨-, rfl⟩ := Prod.mk.inj (Except.ok.inj h)
    exact ⟨payload, hsealed⟩
  next => exact nomatch h

/-- What is sealed for the peer is sealed by an operation. -/
theorem operates_of_sealForPeer (h : (s.sealForPeer S plaintext env).1 = .ok (bytes, after)) :
    Operates S s after := by
  unfold sealForPeer at h
  split at h
  next => exact .sealed h
  next => exact .sealedHandshake h

/-- An operation seals a message, or opens one. -/
theorem Operates.cases (h : Operates S s after) :
    (∃ plaintext env payload, (s.sealMessage S plaintext env).1 = .ok (payload, after)) ∨
    ∃ config now payload isHandshake plaintext,
      s.openMessage S config now payload isHandshake = .ok (plaintext, after) := by
  cases h with
  | sealed h => exact .inl ⟨_, _, _, h⟩
  | sealedHandshake h =>
    obtain ⟨payload, h⟩ := exists_sealMessage_of_sealHandshake h
    exact .inl ⟨_, _, payload, h⟩
  | opened h => exact .inr ⟨_, _, _, _, _, h⟩

/-- The step that is due answers the ratchet key that is known. -/
theorem theirRatchet_of_sendStepDue (h : s.sendStepDue = some their) :
    s.theirRatchet = some their := by
  unfold sendStepDue at h
  split at h
  next => exact h
  next => exact nomatch h

/-- What sealing does to a session: it goes on along the sending chain, or begins a new one. -/
theorem sealMessage_changes (h : (s.sealMessage S plaintext env).1 = .ok (payload, after)) :
    (∃ chain next, s.sendChain.isSome ∧ s.ratchet.isSome ∧
      after = { s with sendChain := some chain, sendIndex := next }) ∨
    ∃ fresh shared chain next, s.theirRatchet.isSome ∧
      after = { s.steppedToSend S fresh shared with sendChain := some chain, sendIndex := next } := by
  obtain ⟨mid, hmid, hnext⟩ := sealMessage_eq_ok.mp h
  obtain ⟨chain, pair, next, hchain, hpair, -, -, rfl⟩ := sealNext_eq_ok.mp hnext
  rcases readied_eq_ok.mp hmid with ⟨-, rfl⟩ | ⟨their, shared, hdue, -, rfl⟩
  · exact .inl ⟨_, next, Option.isSome_iff_exists.mpr ⟨chain, hchain⟩,
      Option.isSome_iff_exists.mpr ⟨pair, hpair⟩, rfl⟩
  · exact .inr ⟨_, shared, _, next,
      Option.isSome_iff_exists.mpr ⟨their, theirRatchet_of_sendStepDue hdue⟩, rfl⟩

/-- Opening keeps the peer's ratchet key, or agrees with the new one. -/
theorem theirRatchet_of_openMessage
    (h : s.openMessage S config now payload isHandshake = .ok (plaintext, after)) :
    (after.theirRatchet = s.theirRatchet) ∨
    ∃ pair their shared, s.ratchet = some pair ∧ pair.agree S their.bytes = .ok shared ∧
      after.theirRatchet = some their := by
  rcases openMessage_changes h with ⟨_, -, rfl⟩ | ⟨_, _, _, -, -, rfl⟩ |
    ⟨pair, their, shared, _, _, _, -, hpair, hshared, rfl⟩
  · exact .inl rfl
  · exact .inl rfl
  · exact .inr ⟨pair, their, shared, hpair, hshared, rfl⟩

/-! ## Sessions that can send -/

/-- A session that can seal and goes on so: it is addressed, agreements with the peer's ratchet key
succeed, and while there is no sending chain that key is known. -/
structure Able (S : Suite) (s : Session) : Prop where
  addressed : s.isEstablished = true ∨
    s.identity.isSome ∧ s.ephemeral.isSome ∧ s.theirOneTime.isSome
  contributes : ∀ their, s.theirRatchet = some their → S.Contributes their
  ratchet : s.sendChain.isSome → s.ratchet.isSome
  due : s.sendChain = none → s.theirRatchet.isSome

/-- An able session can seal. -/
theorem Able.canSeal (h : s.Able S) : s.CanSeal S := by
  refine ⟨h.addressed, fun their hdue => h.contributes their (theirRatchet_of_sendStepDue hdue),
    fun hnone => ?_⟩
  have hchain : s.sendChain.isSome := by
    rw [Option.isSome_iff_ne_none]
    intro hno
    have hdue : s.sendStepDue = s.theirRatchet := by
      rw [sendStepDue, hno, Option.isNone_none, Bool.or_true, if_pos rfl]
    have hknown := h.due hno
    rw [← hdue, hnone] at hknown
    exact absurd hknown Bool.false_ne_true
  exact ⟨hchain, h.ratchet hchain⟩

/-- A session that has sealed stays able. -/
theorem Able.of_sealMessage (h : s.Able S)
    (hsealed : (s.sealMessage S plaintext env).1 = .ok (payload, after)) : after.Able S := by
  rcases sealMessage_changes hsealed with ⟨_, _, -, hratchet, rfl⟩ | ⟨_, _, _, _, -, rfl⟩
  · exact ⟨h.addressed, h.contributes, fun _ => hratchet, nofun⟩
  · exact ⟨h.addressed, h.contributes, fun _ => rfl, nofun⟩

/-- A session that has read stays able: the key of a step has contributed. -/
theorem Able.of_openMessage (hS : S.RefusesByPublicKey) (h : s.Able S)
    (hopened : s.openMessage S config now payload isHandshake = .ok (plaintext, after)) :
    after.Able S := by
  have hframe := openMessage_frame hopened
  have hratchet : after.ratchet = s.ratchet := by rw [hframe]
  have hchain : after.sendChain = s.sendChain := by rw [hframe]
  have hkeys : after.identity = s.identity ∧ after.ephemeral = s.ephemeral ∧
      after.theirOneTime = s.theirOneTime := by
    rw [hframe]
    exact ⟨rfl, rfl, rfl⟩
  obtain ⟨hidentity, hephemeral, honeTime⟩ := hkeys
  rcases theirRatchet_of_openMessage hopened with hsame | ⟨pair, their, shared, -, hshared, hnew⟩
  · refine ⟨?_, ?_, ?_, ?_⟩
    · rw [isEstablished, hsame, hidentity, hephemeral, honeTime]
      exact h.addressed
    · rw [hsame]
      exact h.contributes
    · rw [hchain, hratchet]
      exact h.ratchet
    · rw [hchain, hsame]
      exact h.due
  · refine ⟨.inl ?_, fun their' htheir => ?_, ?_, fun _ => ?_⟩
    · rw [isEstablished, hnew]
      rfl
    · obtain rfl := Option.some.inj (hnew.symm.trans htheir)
      exact KeyPair.contributes_of_agree hS hshared
    · rw [hchain, hratchet]
      exact h.ratchet
    · rw [hnew]
      rfl

/-- Every operation leaves a session that can send. -/
theorem Able.operates (hS : S.RefusesByPublicKey) (h : s.Able S) (ho : Operates S s after) :
    after.Able S := by
  rcases ho.cases with ⟨_, _, _, hsealed⟩ | ⟨_, _, _, _, _, hopened⟩
  · exact h.of_sealMessage hsealed
  · exact h.of_openMessage hS hopened

/-- Using a position of the sending chain takes no agreement. -/
theorem sealNext_ne_crypto (S : Suite) (s : Session) (plaintext : Bytes) (cause : CryptoError) :
    s.sealNext S plaintext ≠ .error (.crypto cause) := by
  unfold sealNext
  split
  next chain ratchetKey _ _ =>
    cases hnext : nextIndex s.sendIndex with
    | error refusal =>
      unfold nextIndex at hnext
      split at hnext
      next =>
        obtain rfl := Except.error.inj hnext
        exact nofun
      next => exact nomatch hnext
    | ok next =>
      rw [ok_bind]
      dsimp only
      cases authenticated S (MessageKeys.ofKey S (messageKey S chain)) (.current ratchetKey.bytes
        s.sendIndex ((MessageKeys.ofKey S (messageKey S chain)).encrypt S plaintext)) with
      | error cause => exact nofun
      | ok payload => exact nofun
  next => exact nofun

/-- A session that can send is not refused for want of an agreement. -/
theorem Able.sealMessage_ne_crypto (h : s.Able S) (plaintext : Bytes) (env : Environment)
    (cause : CryptoError) : (s.sealMessage S plaintext env).1 ≠ .error (.crypto cause) := by
  obtain ⟨mid, hmid, -⟩ := h.canSeal.exists_readied env
  rw [sealMessage_eq, hmid, ok_bind]
  exact sealNext_ne_crypto S mid plaintext cause

/-! ## Sessions that cannot -/

/-- A session that was started with a key, and has not had a ratchet key of its own. -/
structure Stuck (their : Key) (s : Session) : Prop where
  theirRatchet : s.theirRatchet = some their
  ratchet : s.ratchet = none
  sendChain : s.sendChain = none

/-- No message is sealed if every private key refuses the key. -/
theorem Stuck.sealMessage_refused (hrefused : ∀ own, S.sharedSecret own their = none)
    (h : s.Stuck their) (plaintext : Bytes) (env : Environment) :
    (s.sealMessage S plaintext env).1 = .error (.crypto .nonContributory) := by
  have hdue : s.sendStepDue = some their := by
    rw [sendStepDue, h.sendChain, Option.isNone_none, Bool.or_true, if_pos rfl, h.theirRatchet]
  have hagree : (env.drawKeyPair S).1.agree S their.bytes = .error .nonContributory :=
    KeyPair.agree_of_refused rfl hrefused
  have hstep : (s.readied S env).1 = .error (.crypto .nonContributory) := by
    simp only [readied, hdue, sendStep, hagree, mapError_error, error_bind]
  rw [sealMessage_eq, hstep, error_bind]

/-- A stuck session seals nothing under a key that is refused. -/
theorem Stuck.sealForPeer_refused (hrefused : ∀ own, S.sharedSecret own their = none)
    (h : s.Stuck their) (plaintext : Bytes) (env : Environment) :
    (s.sealForPeer S plaintext env).1 = .error (.crypto .nonContributory) := by
  have hest : s.isEstablished = true := by rw [isEstablished, h.theirRatchet, Option.isSome_some]
  rw [sealForPeer, if_pos hest]
  exact h.sealMessage_refused hrefused plaintext env

/-- Nothing frees a stuck session whose key is refused: it takes no step either. -/
theorem Stuck.operates (hrefused : ∀ own, S.sharedSecret own their = none) (h : s.Stuck their)
    (ho : Operates S s after) : after.Stuck their := by
  rcases ho.cases with ⟨plaintext, env, _, hsealed⟩ | ⟨_, _, _, _, _, hopened⟩
  · exact nomatch (h.sealMessage_refused hrefused plaintext env).symm.trans hsealed
  · have hframe := openMessage_frame hopened
    rcases theirRatchet_of_openMessage hopened with hsame | ⟨pair, _, _, hpair, -⟩
    · refine ⟨hsame.trans h.theirRatchet, ?_, ?_⟩
      · rw [hframe]
        exact h.ratchet
      · rw [hframe]
        exact h.sendChain
    · exact nomatch h.ratchet.symm.trans hpair

/-! ## Every session that is reached -/

/-- The initiator starts able. The responder starts stuck, and able only under a key that
contributes. -/
theorem Starts.cases (h : Starts S first s) :
    (first = none ∧ s.Able S) ∨ ∃ their, first = some their ∧ s.Stuck their ∧
      (S.Contributes their → s.Able S) := by
  cases h with
  | initiator => exact .inl ⟨rfl, .inr ⟨rfl, rfl, rfl⟩, nofun, fun _ => rfl, nofun⟩
  | @responder secret their _ started =>
    obtain ⟨key, hkey, started⟩ := bind_eq_ok.mp started
    obtain rfl := Octets.ext (Key.parse_eq_ok.mp hkey)
    obtain rfl := Except.ok.inj started
    refine .inr ⟨their, rfl, ⟨rfl, rfl, rfl⟩, fun hcontributes => ⟨.inl rfl, ?_, nofun, fun _ => rfl⟩⟩
    rintro _ ⟨⟩
    exact hcontributes

/-- A session can send, whatever it has been through, unless it was started with a key that
contributes nothing. -/
theorem Reached.able (hS : S.RefusesByPublicKey) (h : Reached S first s)
    (hfirst : ∀ their, first = some their → S.Contributes their) : s.Able S := by
  obtain ⟨start, hstart, hrun⟩ := h
  induction hrun with
  | refl =>
    rcases hstart.cases with ⟨-, h⟩ | ⟨their, hsome, -, h⟩
    · exact h
    · exact h (hfirst their hsome)
  | tail _ ho ih => exact ih.operates hS ho

/-- A session that was started with such a key never comes to have one of its own. -/
theorem Reached.stuck (hrefused : ∀ own, S.sharedSecret own their = none)
    (h : Reached S (some their) s) : s.Stuck their := by
  obtain ⟨start, hstart, hrun⟩ := h
  induction hrun with
  | refl =>
    rcases hstart.cases with ⟨hnone, -⟩ | ⟨their', hsome, h, -⟩
    · exact nomatch hnone
    · obtain rfl := Option.some.inj hsome
      exact h
  | tail _ ho ih => exact ih.operates hrefused ho

/-- No message is sealed for want of an agreement exactly if the session was started with a key that
contributes nothing: whatever else the peer sent, and whatever was sent to it. -/
theorem Reached.sealMessage_refused_iff (hS : S.RefusesByPublicKey) (h : Reached S first s)
    (plaintext : Bytes) (env : Environment) :
    (∃ cause, (s.sealMessage S plaintext env).1 = .error (.crypto cause)) ↔
      ∃ their, first = some their ∧ ¬ S.Contributes their := by
  constructor
  · rintro ⟨cause, hrefused⟩
    refine Classical.byContradiction fun hnone => ?_
    refine (h.able hS fun their hsome => ?_).sealMessage_ne_crypto plaintext env cause hrefused
    exact Classical.byContradiction fun hno => hnone ⟨their, hsome, hno⟩
  · rintro ⟨their, rfl, hno⟩
    have hrefused := hS.sharedSecret_eq_none hno
    exact ⟨_, (h.stuck hrefused).sealMessage_refused hrefused plaintext env⟩

/-! ## Sessions that can be answered -/

/-- A session that we started, or that was started with a key that contributes. -/
def Answerable (S : Suite) (s : Session) : Prop :=
  ∃ first, Reached S first s ∧ ∀ their, first = some their → S.Contributes their

/-- An answerable session can seal. -/
theorem Answerable.canSeal (hS : S.RefusesByPublicKey) (h : s.Answerable S) : s.CanSeal S := by
  obtain ⟨first, hreached, hfirst⟩ := h
  exact (hreached.able hS hfirst).canSeal

/-- A session that is not answerable has never had a ratchet key of our own. -/
theorem Reached.exists_stuck (hS : S.RefusesByPublicKey) (h : Reached S first s)
    (hno : ¬ s.Answerable S) :
    ∃ their, (∀ own, S.sharedSecret own their = none) ∧ s.Stuck their := by
  cases first with
  | none => exact absurd ⟨none, h, nofun⟩ hno
  | some their =>
    by_cases hcontributes : S.Contributes their
    · refine absurd ⟨some their, h, ?_⟩ hno
      rintro _ ⟨⟩
      exact hcontributes
    · have hrefused := hS.sharedSecret_eq_none hcontributes
      exact ⟨their, hrefused, h.stuck hrefused⟩

end EndToEnd.Session

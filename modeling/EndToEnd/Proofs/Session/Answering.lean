import EndToEnd.Proofs.Handshake
import EndToEnd.Proofs.Session.Lockstep

/-!
# A session that only answers

A session that answers a meeting reads the letters of its first chain, and may send on a chain of
its own. As long as it reads nothing else it takes no receiving step, whatever it sends.

A letter of another session is under another ratchet key. Before the session has sent, it is refused
at once; after that it would lead to a receiving step, and it is refused unless its authenticator is
that of a key that this step opens.

Main statements:

- `Answers.sealed`, `Answers.opened`: sealing and reading the next letter keep a session answering;
- `Answers.refuses_early`, `Answers.refuses`: a letter of another session is refused.
-/

namespace EndToEnd.Session

variable {d : Delivery} {S : Suite} {m : Meeting} {a b after : Session} {ls : List Letter}
  {l : Letter} {config : Config} {now : UInt64} {env : Environment}
  {plaintext bytes payload body : Bytes} {mac : Mac} {message : Wire.RatchetMessage} {other : Key}

/-- The session answers a meeting, and has read nothing but letters of its first chain. -/
structure Answers (S : Suite) (m : Meeting) (b : Session) : Prop where
  theirRatchet : b.theirRatchet = some m.ratchet.publicKey
  settled : b.stepPending = false
  skipped : b.skipped = []
  /-- Its root is that of the meeting, or the next one after its only step. -/
  root : (b.ratchet = none ∧ b.sendChain = none ∧ b.root = (m.responder S).root) ∨
    ∃ own shared, b.ratchet = some own ∧ b.sendChain.isSome = true ∧
      own.agree S m.ratchet.publicKey.bytes = .ok shared ∧
      b.root = (RootStep.next S (m.responder S).root shared).root

namespace Answers

theorem start (S : Suite) (m : Meeting) : Answers S m (m.responder S) :=
  ⟨rfl, rfl, rfl, .inl ⟨rfl, rfl, rfl⟩⟩

theorem isEstablished (h : Answers S m b) : b.isEstablished = true := by
  rw [Session.isEstablished, h.theirRatchet]
  rfl

/-- Sealing takes the step that is due to the first message and no other. -/
theorem sealed (h : Answers S m b)
    (hsealed : (b.sealForPeer S plaintext env).1 = .ok (bytes, after)) : Answers S m after := by
  obtain ⟨mid, payload, hmid, hnext, -⟩ := sealForPeer_eq_ok.mp hsealed
  obtain ⟨chain, pair, next, hchain, hpair, -, -, rfl⟩ := sealNext_eq_ok.mp hnext
  rcases readied_eq_ok.mp hmid with ⟨-, rfl⟩ | ⟨their, shared, hdue, hshared, rfl⟩
  · refine ⟨h.theirRatchet, h.settled, h.skipped, ?_⟩
    rcases h.root with ⟨hnone, -⟩ | ⟨own, shared, hown, -, hrest⟩
    · cases hnone.symm.trans hpair
    · exact .inr ⟨own, shared, hown, rfl, hrest⟩
  · refine ⟨h.theirRatchet, rfl, h.skipped, .inr ⟨_, shared, rfl, rfl, ?_⟩⟩
    rw [sendStepDue, h.settled, Bool.false_or] at hdue
    split at hdue
    next hnone =>
      obtain rfl := Option.some.inj (h.theirRatchet.symm.trans hdue)
      rcases h.root with ⟨-, -, hroot⟩ | ⟨own, shared, -, hsome, -⟩
      · refine ⟨hshared, ?_⟩
        rw [← hroot]
        rfl
      · rw [Option.isNone_iff_eq_none.mp hnone] at hsome
        cases hsome
    next => cases hdue

/-- Accepting a position of the first chain takes no step. -/
theorem advanced (h : Answers S m b) (key : Key) (next : UInt32) :
    Answers S m (b.advanced S key next []) :=
  ⟨h.theirRatchet, h.settled, rfl, h.root⟩

/-- The next letter of the first chain keeps a session answering when it is opened. -/
theorem opened (h : Answers S m b) (hstream : Stream .complete S a b (l :: ls))
    (hopen : b.openMessage S config now l.payload l.isHandshake = .ok (plaintext, after)) :
    Answers S m after ∧ Stream .complete S a after ls := by
  obtain ⟨ratchetKey, chain, hexpects, hstep⟩ := hstream.head
  obtain ⟨key, next, rfl, hafter, hnext⟩ := hexpects.opened_complete h.skipped hopen
  exact ⟨h.advanced key next, hstep key next [] hafter hnext⟩

/-- The next letter of the first chain is opened to its plaintext. -/
theorem opens (h : Answers S m b) (hcipher : S.CipherUndoes)
    (hstream : Stream .complete S a b (l :: ls)) :
    ∃ after, b.openMessage S config now l.payload l.isHandshake = .ok (l.plaintext, after) := by
  obtain ⟨ratchetKey, chain, hexpects, -⟩ := hstream.head
  exact hexpects.opens_complete hcipher h.skipped

end Answers

/-! ## Letters of another session -/

/-- A payload was sealed under the ratchet key that its session has then. -/
theorem exists_message_of_sealForPeer
    (hsealed : (a.sealForPeer S plaintext env).1 = .ok (bytes, after)) :
    ∃ pair payload body mac message, after.ratchet = some pair ∧ a.Carries payload bytes ∧
      Wire.splitMac payload = .ok (body, mac) ∧ Wire.RatchetMessage.decode body = .ok message ∧
      message.ratchetKey = pair.publicKey.bytes := by
  obtain ⟨mid, payload, -, hnext, hcarries⟩ := sealForPeer_eq_ok.mp hsealed
  obtain ⟨chain, pair, next, -, hpair, -, hpayload, rfl⟩ := sealNext_eq_ok.mp hnext
  obtain ⟨body, hbody, hpayload⟩ := bind_eq_ok.mp hpayload
  exact ⟨pair, payload, body, _, _, hpair, hcarries,
    by rw [← Except.ok.inj hpayload, Wire.splitMac_append],
    Wire.RatchetMessage.decode_encode rfl hbody, rfl⟩

/-- The authenticator of a payload is that of a key on the chain that a receiving step of the session
opens for it. -/
def Mistakes (S : Suite) (b : Session) (payload : Bytes) : Prop :=
  ∃ body mac message own shared, Wire.splitMac payload = .ok (body, mac) ∧
    Wire.RatchetMessage.decode body = .ok message ∧ b.ratchet = some own ∧
    own.agree S message.ratchetKey = .ok shared ∧
    (MessageKeys.ofKey S (messageKeyAt S (RootStep.next S b.root shared).chain
      message.chainIndex.toNat)).verifies S body mac.bytes = true

/-- A payload that was sealed in a session that does not answer the same meeting. -/
def Strange (m : Meeting) (payload : Bytes) : Prop :=
  ∃ body mac message other, Wire.splitMac payload = .ok (body, mac) ∧
    Wire.RatchetMessage.decode body = .ok message ∧ message.ratchetKey = Octets.bytes other ∧
    other ≠ m.ratchet.publicKey

section Strange

variable (h : Answers S m b) (hstrange : Strange m payload)
include h hstrange

/-- A session that has not sent refuses what is under another ratchet key. -/
theorem Answers.refuses_early (hratchet : b.ratchet = none) :
    b.openMessage S config now payload false = .error (.rejected .ratchetTooEarly) := by
  obtain ⟨body, mac, message, other, hsplit, hdecode, hkey, hother⟩ := hstrange
  have hnil : (b.prune config now).skipped = [] :=
    List.sublist_nil.mp (h.skipped ▸ prune_sublist config now b)
  have hnone : (b.prune config now).openSkipped S body mac.bytes message.ciphertext = .ok none := by
    rcases openSkipped_cases S (b.prune config now) body mac.bytes message.ciphertext with
      ⟨-, hnone⟩ | ⟨k, hk, -⟩
    · exact hnone
    · rw [hnil] at hk
      exact nomatch hk
  have hnew : (b.prune config now).isNewRatchet other.bytes = true := by
    refine isNewRatchet_bytes.mpr fun heq => hother ?_
    exact Option.some.inj (heq.symm.trans h.theirRatchet)
  have hstep : (b.prune config now).receiveStep S other.bytes =
      .error (.rejected .ratchetTooEarly) := by
    have hsame : (b.prune config now).ratchet = none := hratchet
    rw [receiveStep, hsame]
  have hreached : (b.prune config now).reached S other.bytes false =
      .error (.rejected .ratchetTooEarly) := by
    rw [reached, hnew]
    exact hstep
  simp only [openMessage_eq, hsplit, hdecode, mapError_ok, ok_bind, hnone, hkey, hreached]
  rfl

/-- What is under another ratchet key is refused, unless it is mistaken for one of the chain that a
receiving step opens. -/
theorem Answers.refuses (hno : ¬ b.Mistakes S payload) :
    ∃ cause, b.openMessage S config now payload false = .error cause := by
  cases hopen : b.openMessage S config now payload false with
  | error cause => exact ⟨cause, rfl⟩
  | ok opened =>
    refine absurd ?_ hno
    obtain ⟨body, mac, message, other, hsplit, hdecode, hkey, hother⟩ := hstrange
    obtain ⟨body', mac', message', hsplit', hdecode', hresult⟩ := openMessage_eq_ok.mp hopen
    obtain ⟨rfl, rfl⟩ := Prod.mk.inj (Except.ok.inj (hsplit.symm.trans hsplit'))
    obtain rfl := Except.ok.inj (hdecode.symm.trans hdecode')
    rcases hresult with hskipped | ⟨-, mid, advanced, hmid, hon, -⟩
    · obtain ⟨hsome, -⟩ := openSkipped_eq_some hskipped
      exact absurd (List.sublist_nil.mp (h.skipped ▸ prune_sublist config now b)) hsome
    · rw [hkey] at hmid
      rcases reached_eq_ok.mp hmid with ⟨hknown | hknown, -⟩ |
        ⟨-, -, own, shared, hown, hshared, rfl⟩
      · exact nomatch hknown
      · exact absurd (Option.some.inj (hknown.symm.trans h.theirRatchet)) hother
      · obtain ⟨chain, next, hchain, -, -, hverifies, -⟩ := openOnChain_eq_ok.mp hon
        obtain rfl := Option.some.inj hchain
        exact ⟨body, mac, message, own, shared, hsplit, hdecode, hown, hkey ▸ hshared, hverifies⟩

end Strange

end EndToEnd.Session

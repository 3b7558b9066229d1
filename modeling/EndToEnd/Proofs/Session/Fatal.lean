import EndToEnd.Proofs.Session.Fitting
import EndToEnd.Proofs.Session.Partial

/-!
# What is fatal to a session

Whatever a peer sends is refused for the sake of one message, with one exception: a message that is
authentic at the last position of a chain cannot be taken, as there is no position behind it. A
session never seals a message there, so it takes a peer that does not follow the protocol.

Main statements:

- `openMessage_refuses`: what a message is refused for;
- `openMessage_eq_indexOverflow`: the messages that are refused as fatal;
- `beforeEnd_of_sealAs`, `BeforeEnd.not_endsChain`: none of them was sealed.
-/

namespace EndToEnd

variable {S : Suite}

/-! ## Keys from a peer -/

/-- A key of the wrong length is not fatal. -/
theorem Key.parse_refuses (half : KeyHalf) (bytes : Bytes) :
    RefusesOnly (·.isFatal = false) (Key.parse half bytes) := by
  unfold Key.parse
  split
  next => exact .ok _
  next => exact .error rfl

/-- A key that is no key, or that adds nothing, is the fault of the message it came in. -/
theorem agree_refuses (S : Suite) (their secret : Bytes) :
    RefusesOnly (·.isFatal = false) (agree S their secret) := by
  apply (Key.parse_refuses .publicHalf their).bind
  intro their _
  apply (Key.parse_refuses .privateHalf secret).bind
  intro secret _
  split
  next => exact .ok _
  next => exact .error rfl

theorem KeyPair.agree_refuses (S : Suite) (pair : KeyPair) (their : Bytes) :
    RefusesOnly (·.isFatal = false) (pair.agree S their) := by
  unfold KeyPair.agree
  split
  next => exact EndToEnd.agree_refuses S _ _
  next => exact .error rfl

namespace Session

variable {s mid after : Session} {config : Config} {now : UInt64} {isHandshake : Bool}
  {body mac payload plaintext bytes : Bytes} {m : Wire.RatchetMessage} {env : Environment}

/-! ## Refusals of a message -/

/-- It is the message that is at fault, or there is no position behind it. -/
def Spares (cause : SessionError) : Prop := cause.isFatal = false ∨ cause = .indexOverflow

/-- A message that cannot be read spares the session. -/
theorem wire_refuses {α : Type} (x : Except Wire.Error α) :
    RefusesOnly Spares (x.mapError .wire) :=
  .mapError fun _ _ => .inl rfl

/-- A message that cannot be deciphered spares the session. -/
theorem openWith_refuses (keys : MessageKeys) (ciphertext : Bytes) :
    RefusesOnly Spares (openWith S keys ciphertext) :=
  .mapError fun _ _ => .inl rfl

theorem nextIndex_refuses (index : UInt32) : RefusesOnly Spares (nextIndex index) :=
  fun _ h => .inr (nextIndex_refusal h)

/-- Trying the kept keys spares the session. -/
theorem openSkipped_refuses (S : Suite) (s : Session) (body mac ciphertext : Bytes) :
    RefusesOnly Spares (s.openSkipped S body mac ciphertext) := by
  intro cause h
  obtain ⟨reason, rfl⟩ := openSkipped_refusal h
  exact .inl rfl

/-- A receiving step that cannot be taken spares the session. -/
theorem reached_refuses (S : Suite) (s : Session) (theirRatchet : Bytes) (isHandshake : Bool) :
    RefusesOnly Spares (s.reached S theirRatchet isHandshake) := by
  apply RefusesOnly.ite
  · intro _
    unfold receiveStep
    split
    next => exact .error (.inl rfl)
    next pair _ =>
      apply RefusesOnly.bind
      · apply RefusesOnly.mapError
        exact fun cause h => .inl (pair.agree_refuses S theirRatchet cause h)
      · intro shared _
        apply RefusesOnly.bind
        · apply RefusesOnly.mapError
          exact fun cause h => .inl (Key.parse_refuses .publicHalf theirRatchet cause h)
        · intro their _
          exact .ok _
  · intro _
    exact .ok _

/-- What is refused along a chain spares the session, but for its last position. -/
theorem openOnChain_refuses (S : Suite) (config : Config) (now : UInt64) (s : Session)
    (body mac : Bytes) (m : Wire.RatchetMessage) :
    RefusesOnly Spares (s.openOnChain S config now body mac m) := by
  rcases openOnChain_cases S config now s body mac m with ⟨chain, hon⟩ | ⟨cause, hrefused, hspares, -⟩
  · rw [hon.openOnChain_eq]
    apply (openWith_refuses _ _).bind
    intro plaintext _
    apply (nextIndex_refuses _).bind
    intro next _
    exact .ok _
  · rw [hrefused]
    exact .error (.inl hspares)

/-- Nothing that is read is fatal, up to the end of a chain. -/
theorem openMessage_refuses (S : Suite) (config : Config) (now : UInt64) (s : Session)
    (payload : Bytes) (isHandshake : Bool) :
    RefusesOnly Spares (s.openMessage S config now payload isHandshake) := by
  rw [openMessage_eq]
  apply (wire_refuses (Wire.splitMac payload)).bind
  rintro ⟨body, mac⟩ -
  apply (wire_refuses (Wire.RatchetMessage.decode body)).bind
  intro m _
  apply (openSkipped_refuses S _ body mac.bytes m.ciphertext).bind
  intro opened _
  cases opened with
  | some opened => exact .ok _
  | none =>
    apply (reached_refuses S _ m.ratchetKey isHandshake).bind
    intro mid _
    apply (openOnChain_refuses S config now mid body mac.bytes m).bind
    rintro ⟨plaintext, after⟩ -
    exact .ok _

/-! ## The end of a chain -/

/-- A message is at the last position of its chain: no kept key that is due opens it, the position is
not too far ahead, and the message is authentic there and can be deciphered. -/
structure LastOnChain (S : Suite) (config : Config) (now : UInt64) (s : Session)
    (isHandshake : Bool) (body : Bytes) (mac : Mac) (m : Wire.RatchetMessage) (mid : Session)
    (chain : Key) : Prop where
  last : m.chainIndex = 0xffffffff
  unclaimed : ∀ k, s.Due config now k → k.opens S body mac.bytes = false
  readsOn : s.ReadsOn S m.ratchetKey isHandshake mid
  receiveChain : mid.receiveChain = some chain
  notAhead : mid.ahead m.chainIndex ≤ config.maxSkip
  authentic :
    (MessageKeys.ofKey S (messageKeyAt S chain (mid.ahead m.chainIndex))).mac S body = mac
  deciphers : ∃ plaintext,
    (MessageKeys.ofKey S (messageKeyAt S chain (mid.ahead m.chainIndex))).decrypt S m.ciphertext =
      .ok plaintext

/-- A payload is a message at the last position of its chain. -/
def EndsChain (S : Suite) (config : Config) (now : UInt64) (s : Session) (payload : Bytes)
    (isHandshake : Bool) : Prop :=
  ∃ body mac m mid chain, Wire.splitMac payload = .ok (body, mac) ∧
    Wire.RatchetMessage.decode body = .ok m ∧
    LastOnChain S config now s isHandshake body mac m mid chain

/-- There is no position behind the last one, and behind every other one there is. -/
theorem nextIndex_eq_indexOverflow {index : UInt32} :
    nextIndex index = .error .indexOverflow ↔ index = 0xffffffff := by
  unfold nextIndex
  by_cases h : index = 0xffffffff
  · rw [if_pos h]
    exact ⟨fun _ => h, fun _ => rfl⟩
  · rw [if_neg h]
    exact ⟨nofun, fun hlast => absurd hlast h⟩

/-- A chain ends exactly with an authentic message at its last position, if that is within reach. -/
theorem openOnChain_eq_indexOverflow {mac : Mac} :
    s.openOnChain S config now body mac.bytes m = .error .indexOverflow ↔
      ∃ chain, s.receiveChain = some chain ∧ m.chainIndex = 0xffffffff ∧
        s.ahead m.chainIndex ≤ config.maxSkip ∧
        (MessageKeys.ofKey S (messageKeyAt S chain (s.ahead m.chainIndex))).mac S body = mac ∧
        ∃ plaintext, (MessageKeys.ofKey S
          (messageKeyAt S chain (s.ahead m.chainIndex))).decrypt S m.ciphertext = .ok plaintext := by
  constructor
  · intro h
    rcases openOnChain_cases S config now s body mac.bytes m with
      ⟨chain, hon⟩ | ⟨cause, hrefused, hspares, -⟩
    · rw [hon.openOnChain_eq] at h
      rcases bind_eq_error.mp h with hno | ⟨plaintext, hopen, h⟩
      · obtain ⟨cause, -, hno⟩ := mapError_eq_error.mp hno
        exact nomatch hno
      · rcases bind_eq_error.mp h with hnext | ⟨next, -, h⟩
        · exact ⟨chain, hon.receiveChain, nextIndex_eq_indexOverflow.mp hnext, hon.notAhead,
            Octets.ext (beq_iff_eq.mp hon.verifies), plaintext, openWith_eq_ok.mp hopen⟩
        · exact nomatch h
    · obtain rfl := Except.error.inj (hrefused.symm.trans h)
      exact nomatch hspares
  · rintro ⟨chain, hchain, hlast, hskip, hmac, plaintext, hplain⟩
    have hon : OnChain S config s body mac.bytes m chain :=
      ⟨hchain, Word.toNat_le_of_last hlast, hskip, beq_iff_eq.mpr (congrArg Octets.bytes hmac)⟩
    rw [hon.openOnChain_eq, openWith_eq_ok.mpr hplain, ok_bind,
      nextIndex_eq_indexOverflow.mpr hlast, error_bind]

/-- A message is refused for the end of its chain exactly if it is at the last position of it. -/
theorem openMessage_eq_indexOverflow :
    s.openMessage S config now payload isHandshake = .error .indexOverflow ↔
      EndsChain S config now s payload isHandshake := by
  have hrefusal : OfChain .indexOverflow := trivial
  rw [openMessage_eq_ofChain hrefusal]
  simp only [openOnChain_eq_indexOverflow, reached_iff_readsOn, readsOn_prune_iff, mem_prune_iff]
  constructor
  · rintro ⟨body, mac, m, _, hsplit, hdecode, hunclaimed, ⟨mid, hreads, rfl⟩, chain, hchain, hlast,
      hskip, hmac, hplain⟩
    exact ⟨body, mac, m, mid, chain, hsplit, hdecode, hlast, hunclaimed, hreads, hchain, hskip, hmac,
      hplain⟩
  · rintro ⟨body, mac, m, mid, chain, hsplit, hdecode, h⟩
    exact ⟨body, mac, m, _, hsplit, hdecode, h.unclaimed, ⟨mid, h.readsOn, rfl⟩, chain,
      h.receiveChain, h.last, h.notAhead, h.authentic, h.deciphers⟩

/-- What a message is refused for as fatal. -/
theorem endsChain_of_isFatal {cause : SessionError}
    (h : s.openMessage S config now payload isHandshake = .error cause)
    (hfatal : cause.isFatal = true) :
    cause = .indexOverflow ∧ EndsChain S config now s payload isHandshake := by
  rcases openMessage_refuses S config now s payload isHandshake cause h with hno | rfl
  · exact nomatch hfatal.symm.trans hno
  · exact ⟨rfl, openMessage_eq_indexOverflow.mp h⟩

/-! ## Messages that were sealed -/

/-- What is opened of a message: the message, or the one inside a handshake message. -/
def Holds : (isHandshake : Bool) → (bytes payload : Bytes) → Prop
  | false, bytes, payload => payload = bytes
  | true, bytes, payload =>
    ∃ message, Wire.HandshakeMessage.decode bytes = .ok message ∧ payload = message.message

/-- There is one payload to open of a message. -/
theorem Holds.unique {other : Bytes} (h : Holds isHandshake bytes payload)
    (h' : Holds isHandshake bytes other) : other = payload := by
  cases isHandshake with
  | false => exact Eq.trans h' h.symm
  | true =>
    obtain ⟨message, hmessage, rfl⟩ := h
    obtain ⟨message', hmessage', rfl⟩ := h'
    obtain rfl := Except.ok.inj (hmessage.symm.trans hmessage')
    rfl

/-- A payload is a message in front of the last position of its chain. -/
def BeforeEnd (payload : Bytes) : Prop :=
  ∃ body mac m, Wire.splitMac payload = .ok (body, mac) ∧
    Wire.RatchetMessage.decode body = .ok m ∧ m.chainIndex ≠ 0xffffffff

/-- A message at another position does not end the chain. -/
theorem BeforeEnd.not_endsChain (h : BeforeEnd payload) :
    ¬ EndsChain S config now s payload isHandshake := by
  rintro ⟨body, mac, m, mid, chain, hsplit, hdecode, hlast⟩
  obtain ⟨body', mac', m', hsplit', hdecode', hbefore⟩ := h
  obtain ⟨rfl, rfl⟩ := Prod.mk.inj (Except.ok.inj (hsplit.symm.trans hsplit'))
  obtain rfl := Except.ok.inj (hdecode.symm.trans hdecode')
  exact hbefore hlast.last

/-- Sealing counts the position behind that of the message, so there is one. -/
theorem beforeEnd_of_sealMessage (h : (s.sealMessage S plaintext env).1 = .ok (payload, after)) :
    BeforeEnd payload := by
  obtain ⟨mid, hmid, hnext⟩ := sealMessage_eq_ok.mp h
  obtain ⟨-, -, next, -, -, hindex, -⟩ := sealNext_eq_ok.mp hnext
  obtain ⟨mid', chain, pair, hmid', -, -, body, hsplit, hdecode⟩ := sealMessage_readsAs h
  obtain rfl := Except.ok.inj (hmid.symm.trans hmid')
  refine ⟨body, _, _, hsplit, hdecode, ?_⟩
  intro hlast
  exact nomatch hindex.symm.trans (nextIndex_eq_indexOverflow.mpr hlast)

/-- What is sealed, as a handshake message or not, is in front of the end of its chain. -/
theorem beforeEnd_of_sealAs (h : (s.sealAs S isHandshake plaintext env).1 = .ok (bytes, after)) :
    ∃ payload, Holds isHandshake bytes payload ∧ BeforeEnd payload := by
  cases isHandshake with
  | false => exact ⟨bytes, rfl, beforeEnd_of_sealMessage h⟩
  | true =>
    obtain ⟨_, _, _, payload, -, -, -, hdecode, hsealed⟩ := sealHandshake_readsAs h
    exact ⟨payload, ⟨_, hdecode, rfl⟩, beforeEnd_of_sealMessage hsealed⟩

end Session

end EndToEnd

import EndToEnd.Proofs.Correspondence.Introduction

/-!
# What is read is what was written

Two devices that are in touch read from each other what was written. Where no envelope is lost and
no store fails, every envelope is read. Where envelopes are lost and the reader's store may fail, an
envelope of the initiator is read or refused by the store, as long as nothing was read of a session
that the responder has replaced.

Main statements:

- `understood_run`: without losses and failures, every envelope is read as what was written;
- `opened_run_of_kept`: with both, every envelope of the initiator still is, unless the store
  refuses, if nothing was read of a replaced session.
-/

namespace EndToEnd.Correspondence

open Correspondent Session

variable {σ : Type} [Store σ] [LawfulStore σ] {S : Suite} {x : Correspondence σ} {m : Meeting}
  {a : Session} {letters : List Letter} {l : Letter} {p : Post} {rest : List Post}
  {initiator responder : Correspondent σ} {config : Config} {now : UInt64}

/-! ## The first letter of a meeting -/

/-- The session that answers a meeting opens every letter of its first chain that is not too far
ahead. -/
theorem responder_opens (hcipher : S.CipherUndoes) (hletter : l.isHandshake = true)
    (hl : l.IsSealed S m.ratchet.publicKey (m.chain S))
    (hreach : WithinReach config (m.responder S) l.payload)
    (hown : Session.Unmistaken S (m.responder S) l.plaintext l.payload) :
    ∃ after, (m.responder S).openMessage S config now l.payload l.isHandshake =
      .ok (l.plaintext, after) := by
  obtain ⟨body, mac, hsplit, hdecode, -⟩ := hl.parts
  have hdistance := hreach body mac _ hsplit hdecode
  have hreceives : Receives S (m.responder S) m.ratchet.publicKey (m.chain S) := ⟨rfl, rfl⟩
  refine hreceives.open_letter hcipher hl (reached_eq_ok.mpr (.inl ⟨.inl hletter, rfl⟩))
    (Nat.zero_le _) ?_ hown
  unfold distance at hdistance
  split at hdistance
  next => exact hdistance
  next => exact hdistance

/-! ## Without losses and failures -/

/-- The next envelope of the initiator is opened, where no letter is lost. -/
theorem Met.responder_openMessage (hcipher : S.CipherUndoes)
    (h : Met .complete S x.view m a (l :: letters)) {entry : Wire.Entry}
    (hopens : Opens S x m p l entry) :
    ∃ session bundle, Device.OpensWith S (x.party .responder).device (x.records .responder)
        p.envelope.sender entry ⟨session, l.payload, bundle⟩ ∧
      ∀ now, ∃ after, session.openMessage S (x.party .responder).device.config now l.payload
        l.isHandshake = .ok (l.plaintext, after) := by
  cases hopens with
  | @fresh own bundle hletter hholding hcurrent hdecoded hopens =>
    refine ⟨m.responder S, some bundle, hopens, fun now => ?_⟩
    cases h.partner with
    | present b some answering => exact absurd hholding (answering.whole rfl).2.2
    | absent none unread =>
      exact (h.fresh unread fun _ => none).opens_complete hcipher rfl
  | @stored b hsession hspent hopens =>
    refine ⟨b, none, hopens, fun now => ?_⟩
    cases h.partner with
    | absent none => exact nomatch none.symm.trans hsession
    | present b' some answering =>
      obtain rfl : b' = b := Option.some.inj (some.symm.trans hsession)
      obtain ⟨old, new, back, -, -, -, -, -, hreading⟩ := answering.replies
      cases hreading with
      | inStep hlockstep => exact hlockstep.opens_complete hcipher (answering.whole rfl).2.1
      | halfway lossy => exact nomatch lossy

/-- The next envelope of the responder is opened, where no letter is lost. -/
theorem Met.initiator_openMessage (hcipher : S.CipherUndoes)
    (h : Met .complete S x.view m a letters) (hsent : x.sent .responder = p :: rest) :
    ∃ l entry, p.Holds S m (x.id .responder) (x.id .initiator) l ∧
      p.envelope.entryFor (x.id .initiator) = some entry ∧ entry.isHandshake = l.isHandshake ∧
      Device.OpensWith S (x.party .initiator).device (x.records .initiator) p.envelope.sender entry
        ⟨a, l.payload, none⟩ ∧
      ∀ now, ∃ after, a.openMessage S (x.party .initiator).device.config now l.payload
        l.isHandshake = .ok (l.plaintext, after) := by
  obtain ⟨l, hp, hletter, hnext, -⟩ := h.initiatorReads hsent nofun
  obtain ⟨hkept, b, back, hlockstep⟩ := hnext rfl
  obtain ⟨entry, hentry, hsame, -⟩ := hp.entry
  exact ⟨l, entry, hp, hentry, hsame,
    hp.opensWith_stored hentry h.ours fun hyes => (nomatch hletter.symm.trans hyes),
    fun now => hlockstep.symm.opens_complete hcipher hkept⟩

/-- What is read and used up where nothing is lost and no store fails. -/
structure Understood (S : Suite) (x : Correspondence σ) : Prop where
  /-- Either side reads the next envelope as what was written. -/
  reads : ∀ side p rest, x.sent side = p :: rest → (x.opened S side.peer p).1 = .ok p.plaintext
  /-- The initiator writes inside handshake messages until it has read an answer, and only then. -/
  flags : ∀ plaintext e entry, (x.written S .initiator plaintext).1 = .ok e → entry ∈ e.entries →
    (entry.isHandshake = true ↔ x.read .initiator = 0)
  /-- The first envelope that the responder reads uses up a one-time key. -/
  usesUp : ∀ p rest, x.sent .initiator = p :: rest → x.read .responder = 0 →
    ∃ own name env, (x.records .responder).current = some own ∧ (own.find? name).isSome ∧
      ((x.step S (.read .responder)).records .responder).current =
        some ((own.erase name).replenish S (x.party .responder).device.config.oneTimeKeys env).2.1
  /-- No later one does. -/
  keeps : 0 < x.read .responder →
    ((x.step S (.read .responder)).records .responder).current = (x.records .responder).current

/-- An envelope that can be opened is read, unless the store refuses. -/
theorem opened_cases {side : Side} {entry : Wire.Entry} {session : Session}
    {bundle : Option Bundle} (hcipher : S.CipherUndoes)
    (hp : p.Holds S m (x.id side.peer) (x.id side) l)
    (hentry : p.envelope.entryFor (x.id side) = some entry)
    (hsame : entry.isHandshake = l.isHandshake)
    (hopens : Device.OpensWith S (x.party side).device (x.records side) p.envelope.sender entry
      ⟨session, l.payload, bundle⟩)
    (hmessage : ∀ now, ∃ after, session.openMessage S (x.party side).device.config now l.payload
      l.isHandshake = .ok (l.plaintext, after)) :
    (x.opened S side p).1 = .ok p.plaintext ∨
      ¬ x.Healthy side ∧ ∃ cause state, x.opened S side p = (.error (.store cause), state) := by
  have hdecrypts (now : UInt64) : ∃ bodyKey after,
      session.openMessage S (x.party side).device.config now l.payload entry.isHandshake =
        .ok (bodyKey, after) ∧
      S.decrypt bodyKey p.envelope.iv.bytes p.envelope.body = .ok p.plaintext := by
    obtain ⟨after, hafter⟩ := hmessage now
    exact ⟨l.plaintext, after, hsame ▸ hafter, hp.decrypts hcipher⟩
  refine (Device.decrypt_reads (s := (x.party side).state) hentry hopens hdecrypts).imp_left ?_
  rintro ⟨state, hdecrypt⟩
  exact congrArg Prod.fst hdecrypt

/-- Two devices that are in touch read from each other what was written, where nothing is lost and no
store fails. -/
theorem InTouch.reads (hcipher : S.CipherUndoes) (h : x.InTouch .complete S)
    (hagrees : x.Agrees S) (side : Side) (hsent : x.sent side = p :: rest) :
    (x.opened S side.peer p).1 = .ok p.plaintext := by
  obtain ⟨hcounted, hunmet | ⟨m, a, letters, hmet⟩⟩ := h.stage
  · exact nomatch hsent.symm.trans (hunmet.sent side)
  cases side with
  | initiator =>
    obtain ⟨l, letters, rfl⟩ := hmet.exists_letter hsent
    obtain ⟨hp, entry, hentry, hsame, hopens⟩ := hmet.responderOpens hcounted hagrees hsent
    obtain ⟨session, bundle, hopensWith, hmessage⟩ := hmet.responder_openMessage hcipher hopens
    exact (opened_cases hcipher hp hentry hsame hopensWith hmessage).resolve_right
      fun hno => hno.1 (h.healthy rfl .responder)
  | responder =>
    obtain ⟨l, entry, hp, hentry, hsame, hopensWith, hmessage⟩ :=
      hmet.initiator_openMessage hcipher hsent
    exact (opened_cases hcipher hp hentry hsame hopensWith hmessage).resolve_right
      fun hno => hno.1 (h.healthy rfl .initiator)

/-- The initiator writes inside handshake messages until it has read an answer, and only then. -/
theorem InTouch.flags (h : x.InTouch .complete S) {plaintext : Bytes} {e : Wire.Envelope}
    {entry : Wire.Entry} (hwritten : (x.written S .initiator plaintext).1 = .ok e)
    (hentry : entry ∈ e.entries) : entry.isHandshake = true ↔ x.read .initiator = 0 := by
  obtain ⟨-, hunmet | ⟨m, a, letters, hmet⟩⟩ := h.stage
  · rcases isHandshake_of_written h.placed hwritten hentry with ⟨session, hstored, -⟩ | ⟨-, hyes⟩
    · exact nomatch (hunmet.session .initiator).symm.trans hstored
    · exact ⟨fun _ => hunmet.read .initiator, fun _ => hyes⟩
  · rcases isHandshake_of_written h.placed hwritten hentry with ⟨session, hstored, hsame⟩ | ⟨hnone, -⟩
    · obtain rfl : session = a := Option.some.inj (hstored.symm.trans hmet.ours)
      have hcount : session.isEstablished = true ↔ 0 < x.read .initiator := (hmet.counts rfl).1
      rw [hsame, Bool.not_eq_true', ← Bool.not_eq_true, hcount]
      omega
    · exact nomatch hnone.symm.trans hmet.ours

/-- Reading the next envelope counts it. -/
theorem read_step_of_opened (side : Side) {plaintext : Bytes} (hsent : x.sent side.peer = p :: rest)
    (hopened : (x.opened S side p).1 = .ok plaintext) :
    (x.step S (.read side)).read side = x.read side + 1 := by
  rw [step]
  simp only [hsent]
  split
  next => exact Function.update_self _ _ _
  next heq =>
    rw [heq] at hopened
    cases hopened

/-- The first envelope that the responder reads uses up a one-time key. -/
theorem InTouch.usesUp (hcipher : S.CipherUndoes) (h : x.InTouch .complete S)
    (hagrees : x.Agrees S) (hsent : x.sent .initiator = p :: rest)
    (hfirst : x.read .responder = 0) :
    ∃ own name env, (x.records .responder).current = some own ∧ (own.find? name).isSome ∧
      ((x.step S (.read .responder)).records .responder).current =
        some ((own.erase name).replenish S (x.party .responder).device.config.oneTimeKeys env).2.1 := by
  have hread := read_step_of_opened .responder hsent
    (h.reads hcipher hagrees .initiator hsent)
  obtain ⟨hcounted, hunmet | ⟨m, a, letters, hmet⟩⟩ := h.stage
  · exact nomatch hsent.symm.trans (hunmet.sent .initiator)
  obtain ⟨l, letters, rfl⟩ := hmet.exists_letter hsent
  have hnone : x.session .responder = none := (hmet.counts rfl).2.mpr hfirst
  obtain ⟨hp, entry, hentry, -, hopens⟩ := hmet.responderOpens hcounted hagrees hsent
  cases hopens with
  | stored hsession => exact nomatch hnone.symm.trans hsession
  | @fresh own bundle hletter hholding hcurrent hdecoded hopens =>
    obtain ⟨own', hown', hheld⟩ := hholding
    obtain rfl := Option.some.inj (hown'.symm.trans hcurrent)
    rcases read_fresh .responder hsent hp.sender hentry hdecoded hcurrent hopens with
      hview | ⟨now, bodyKey, after, -, -, ⟨env, stored, rfl, hview⟩ | ⟨hunhealthy, -⟩⟩
    · have hsame : (x.step S (.read .responder)).read .responder = x.read .responder :=
        congrFun (congrArg View.read hview) .responder
      omega
    · exact ⟨own', _, env, hcurrent, hheld, congrFun (congrArg View.current hview) .responder⟩
    · exact absurd (h.healthy rfl .responder) hunhealthy

/-- No later envelope uses up a one-time key. -/
theorem InTouch.keeps (h : x.InTouch .complete S) (hagrees : x.Agrees S)
    (hlater : 0 < x.read .responder) :
    ((x.step S (.read .responder)).records .responder).current =
      (x.records .responder).current := by
  cases hsent : x.sent .initiator with
  | nil =>
    rw [Correspondence.step]
    simp only [Side.peer, hsent]
  | cons p rest =>
    obtain ⟨hcounted, hunmet | ⟨m, a, letters, hmet⟩⟩ := h.stage
    · cases hsent.symm.trans (hunmet.sent .initiator)
    obtain ⟨l, letters, rfl⟩ := hmet.exists_letter hsent
    obtain ⟨hp, entry, hentry, -, hopens⟩ := hmet.responderOpens hcounted hagrees hsent
    cases hopens with
    | fresh hletter hholding =>
      cases hmet.partner with
      | absent none =>
        have hzero : x.read .responder = 0 := (hmet.counts rfl).2.mp none
        omega
      | present b some answering => exact absurd hholding (answering.whole rfl).2.2
    | stored hsession hspent hopens =>
      rcases read_stored .responder hsent hp.sender hentry hsession hopens with
        hview | ⟨now, bodyKey, after, -, -, hview⟩
      · exact congrFun (congrArg View.current hview) .responder
      · exact congrFun (congrArg View.current hview) .responder

/-- The responder writes only after it has read something. -/
def AnswersOnly (S : Suite) (x : Correspondence σ) (events : List Event) : Prop :=
  ∀ before plaintext behind, events = before ++ .write .responder plaintext :: behind →
    0 < (x.run S before).read .responder

theorem AnswersOnly.nil : AnswersOnly S x [] := by
  intro before plaintext behind heq
  exact absurd heq.symm (List.append_ne_nil_of_right_ne_nil _ (List.cons_ne_nil _ _))

theorem AnswersOnly.cons {e : Event} {events : List Event}
    (hfirst : ∀ plaintext, e = .write .responder plaintext → 0 < x.read .responder)
    (h : AnswersOnly S (x.step S e) events) : AnswersOnly S x (e :: events) := by
  intro before plaintext behind heq
  cases before with
  | nil => exact hfirst plaintext (List.cons.inj heq).1
  | cons first before =>
    obtain ⟨rfl, hrest⟩ := List.cons.inj heq
    exact h before plaintext behind hrest

theorem AnswersOnly.other {e : Event} {events : List Event}
    (hne : ∀ plaintext, e ≠ .write .responder plaintext)
    (h : AnswersOnly S (x.step S e) events) : AnswersOnly S x (e :: events) :=
  .cons (fun plaintext he => absurd he (hne plaintext)) h

/-- A responder that writes only after it has read something starts no session. -/
theorem InTouch.oneStarts_step (h : x.InTouch .complete S) (hno : x.initiated .responder = false)
    {e : Event} (hanswers : ∀ plaintext, e = .write .responder plaintext → 0 < x.read .responder) :
    (x.step S e).initiated .responder = false := by
  cases e with
  | write writer plaintext =>
    rw [Correspondence.step]
    rcases write_cases S h.placed writer plaintext with ⟨state, heq, -⟩ |
      ⟨p, state, entry, session, env, after, heq, -⟩
    · rw [heq]
      exact hno
    · rw [heq]
      cases writer with
      | initiator => exact hno
      | responder =>
        have hread := hanswers plaintext rfl
        show (x.initiated .responder || (x.session .responder).isNone) = false
        rw [hno, Bool.false_or]
        obtain ⟨-, hunmet | ⟨m, a, letters, hmet⟩⟩ := h.stage
        · rw [hunmet.read .responder] at hread
          exact absurd hread (Nat.lt_irrefl 0)
        · have hsession : x.session .responder ≠ none := fun hnone =>
            Nat.ne_of_gt hread ((hmet.counts rfl).2.mp hnone)
          rw [Option.isNone_eq_false_iff, Option.isSome_iff_ne_none]
          exact hsession
  | _ =>
    refine (congrFun (initiated_step S x ?_) _).trans hno
    rintro _ _ ⟨⟩

/-- Two devices of which the second only answers stay in touch over every run in which nothing is
lost and no store fails. -/
theorem inTouch_run_of_answersOnly (h : Acquainted initiator responder)
    (hhealthy : initiator.state.Healthy ∧ responder.state.Healthy) (events : List Event)
    (hallowed : ∀ e ∈ events, e.IsAllowed .complete)
    (hanswers : AnswersOnly S (start initiator responder) events)
    (hagrees : ((start initiator responder).run S events).Agrees S)
    (hdistinct : ((start initiator responder).run S events).KeysDistinct) :
    ((start initiator responder).run S events).InTouch .complete S ∧
      ((start initiator responder).run S events).initiated .responder = false := by
  induction events using List.reverseRecOn with
  | nil => exact ⟨.start h fun _ => hhealthy, rfl⟩
  | append_singleton events e ih =>
    rw [run_concat] at hagrees hdistinct ⊢
    have hextends := extends_step S ((start initiator responder).run S events) e
    obtain ⟨htouch, hno⟩ := ih (fun e' he' => hallowed e' (List.mem_append_left _ he'))
      (fun before plaintext behind heq => hanswers before plaintext (behind ++ [e])
        (by rw [heq, List.append_assoc, List.cons_append]))
      (hagrees.of_extends hextends) (hdistinct.of_extends hextends)
    have hno' := htouch.oneStarts_step hno (e := e) fun plaintext he =>
      hanswers events plaintext [] (by rw [he])
    exact ⟨htouch.step (hallowed e (List.mem_append_right _ List.mem_cons_self))
      ⟨hagrees, hdistinct, hno', nofun⟩, hno'⟩

/-- In every run of two devices of which the second only answers, in which nothing is lost and no
store fails, every envelope is read as what was written; the initiator writes inside handshake
messages until it has read an answer, and the first of them uses up a one-time key. -/
theorem understood_run (hcipher : S.CipherUndoes) (h : Acquainted initiator responder)
    (hhealthy : initiator.state.Healthy ∧ responder.state.Healthy) (events : List Event)
    (hallowed : ∀ e ∈ events, e.IsAllowed .complete)
    (hanswers : AnswersOnly S (start initiator responder) events)
    (hagrees : ((start initiator responder).run S events).Agrees S)
    (hdistinct : ((start initiator responder).run S events).KeysDistinct) :
    ((start initiator responder).run S events).Understood S := by
  obtain ⟨htouch, -⟩ :=
    inTouch_run_of_answersOnly h hhealthy events hallowed hanswers hagrees hdistinct
  exact ⟨fun side _ _ hsent => htouch.reads hcipher hagrees side hsent,
    fun _ _ _ hwritten hentry => htouch.flags hwritten hentry,
    fun _ _ hsent hfirst => htouch.usesUp hcipher hagrees hsent hfirst,
    fun hlater => htouch.keeps hagrees hlater⟩

/-- The responder answers while the initiator's second envelope is on its way to it. -/
theorem understood_run_crossing :
    let x := (start alice bob).run .plain [.write .initiator [1], .write .initiator [2],
      .read .responder, .write .responder [3], .read .responder, .publish .responder,
      .read .initiator, .learn .initiator 1, .write .initiator [4]]
    x.read .initiator = 1 ∧ x.read .responder = 2 ∧ x.Understood .plain := by
  have hrun :
      let x := (start alice bob).run .plain [.write .initiator [1], .write .initiator [2],
        .read .responder, .write .responder [3], .read .responder, .publish .responder,
        .read .initiator, .learn .initiator 1, .write .initiator [4]]
      (∀ side, ∀ p ∈ x.generated side, p.privateKey = some p.publicKey) ∧ x.KeysDistinct ∧
        x.read .initiator = 1 ∧ x.read .responder = 2 ∧
        0 < ((start alice bob).run .plain [.write .initiator [1], .write .initiator [2],
          .read .responder]).read .responder := by
    decide +kernel
  obtain ⟨hown, hdistinct, hread, hreadToo, hanswer⟩ := hrun
  rw [run, List.foldl_cons, List.foldl_cons, List.foldl_cons, List.foldl_nil] at hanswer
  refine ⟨hread, hreadToo, understood_run Suite.plain_cipherUndoes acquainted_alice_bob
    ⟨healthy_memory _, healthy_memory _⟩ _ ?_ ?_ (.of_plain hown) hdistinct⟩
  · simp [Event.IsAllowed]
  · refine .other ?_ <| .other ?_ <| .other ?_ <| .cons (fun _ _ => hanswer) <| .other ?_ <|
      .other ?_ <| .other ?_ <| .other ?_ <| .other ?_ .nil
    all_goals rintro _ ⟨⟩

/-! ## With losses and failures -/

/-- What the responder would open an envelope with is at most as far ahead as its configuration
allows. -/
def WithinReach (S : Suite) (x : Correspondence σ) (p : Post) : Prop :=
  ∀ entry opening, p.envelope.entryFor (x.id .responder) = some entry →
    Device.OpensWith S (x.party .responder).device (x.records .responder) p.envelope.sender entry
      opening →
    Session.WithinReach (x.party .responder).device.config opening.session opening.payload

/-- No key that the responder has kept opens an envelope, unless it could have been sealed with it.
-/
def Unmistaken (S : Suite) (x : Correspondence σ) (p : Post) : Prop :=
  ∀ entry opening, p.envelope.entryFor (x.id .responder) = some entry →
    Device.OpensWith S (x.party .responder).device (x.records .responder) p.envelope.sender entry
      opening →
    Session.Unmistaken S opening.session p.bodyKey.bytes opening.payload

/-- What is checked of an envelope outside a handshake message. -/
theorem reach_and_unmistaken_of_plain (h : ∀ entry ∈ p.envelope.entryFor (x.id .responder),
      entry.isHandshake = false ∧ ∀ session ∈ (x.records .responder).session p.envelope.sender,
        session.skipped = [] ∧
          Session.WithinReach (x.party .responder).device.config session entry.key) :
    x.WithinReach S p ∧ x.Unmistaken S p := by
  constructor
  · intro entry opening hentry hopens
    obtain ⟨hplain, hsession⟩ := h entry hentry
    obtain ⟨hstored, hpayload⟩ := hopens.of_plain hplain
    exact hpayload ▸ (hsession _ hstored).2
  · intro entry opening hentry hopens
    obtain ⟨hplain, hsession⟩ := h entry hentry
    obtain ⟨hstored, -⟩ := hopens.of_plain hplain
    exact .of_skipped_eq_nil (hsession _ hstored).1

/-- The next envelope of the initiator is opened, if it is not too far ahead and no key that the
responder has kept opens it. -/
theorem Met.responder_openMessage_of_reach (hcipher : S.CipherUndoes)
    (h : Met .lossy S x.view m a (l :: letters)) {entry : Wire.Entry}
    (hp : p.Holds S m (x.id .initiator) (x.id .responder) l)
    (hentry : p.envelope.entryFor (x.id .responder) = some entry) (hopens : Opens S x m p l entry)
    (hreach : x.WithinReach S p) (hown : x.Unmistaken S p) :
    ∃ session bundle, Device.OpensWith S (x.party .responder).device (x.records .responder)
        p.envelope.sender entry ⟨session, l.payload, bundle⟩ ∧
      ∀ now, ∃ after, session.openMessage S (x.party .responder).device.config now l.payload
        l.isHandshake = .ok (l.plaintext, after) := by
  cases hopens with
  | @fresh own bundle hletter hholding hcurrent hdecoded hopensWith =>
    have hnear := hreach entry _ hentry hopensWith
    have hkeys := hown entry _ hentry hopensWith
    rw [← hp.bodyKey] at hkeys
    dsimp only at hnear hkeys
    exact ⟨m.responder S, some bundle, hopensWith, fun now =>
      responder_opens (m := m) hcipher hletter (hp.first hletter) hnear hkeys⟩
  | @stored b hsession hspent hopensWith =>
    have hnear := hreach entry _ hentry hopensWith
    have hkeys := hown entry _ hentry hopensWith
    rw [← hp.bodyKey] at hkeys
    refine ⟨b, none, hopensWith, fun now => ?_⟩
    cases h.partner with
    | absent none => exact nomatch none.symm.trans hsession
    | present b' some answering =>
      obtain rfl : b' = b := Option.some.inj (some.symm.trans hsession)
      obtain ⟨old, new, back, -, -, -, -, -, hreading⟩ := answering.replies
      cases hreading with
      | inStep hlockstep =>
        exact hlockstep.opens hcipher hnear hkeys
      | halfway lossy holding first handshake =>
        obtain ⟨rfl, rfl⟩ := List.cons.inj first
        exact absurd holding (hspent handshake)

/-- In every run in which only one device starts sessions, envelopes may be lost and stores may fail,
the next envelope of that device is read as what was written or refused by the other's store, as
long as nothing was read of a session that has been replaced. -/
theorem opened_run_of_kept (hcipher : S.CipherUndoes) (h : Acquainted initiator responder)
    (events : List Event) (hassumed : ((start initiator responder).run S events).Assumed .lossy S)
    (hsent : ((start initiator responder).run S events).sent .initiator = p :: rest)
    (hreach : ((start initiator responder).run S events).WithinReach S p)
    (hown : ((start initiator responder).run S events).Unmistaken S p) :
    (((start initiator responder).run S events).opened S .responder p).1 = .ok p.plaintext ∨
      ¬ ((start initiator responder).run S events).Healthy .responder ∧
        ∃ cause, (((start initiator responder).run S events).opened S .responder p).1 =
          .error (.store cause) := by
  have hallowed (e : Event) : e.IsAllowed .lossy := by
    cases e with
    | lose => exact rfl
    | _ => trivial
  have htouch := inTouch_run (d := .lossy) h nofun events (fun e _ => hallowed e) hassumed
  generalize (start initiator responder).run S events = x at *
  obtain ⟨hcounted, hunmet | ⟨m, a, letters, hmet⟩⟩ := htouch.stage
  · exact nomatch hsent.symm.trans (hunmet.sent .initiator)
  obtain ⟨l, letters, rfl⟩ := hmet.exists_letter hsent
  obtain ⟨hp, entry, hentry, hsame, hopens⟩ := hmet.responderOpens hcounted hassumed.agrees hsent
  obtain ⟨session, bundle, hopensWith, hmessage⟩ :=
    hmet.responder_openMessage_of_reach hcipher hp hentry hopens hreach hown
  refine (opened_cases hcipher hp hentry hsame hopensWith hmessage).imp_right ?_
  rintro ⟨hunhealthy, cause, state, hdecrypt⟩
  exact ⟨hunhealthy, cause, congrArg Prod.fst hdecrypt⟩

/-- Bob's store fails when he has saved the session of Alice's first envelope, and not yet his
bundle. He reads it again, and answers. -/
theorem opened_run_after_failure :
    let x := (start (alice.failing fun _ => false) (bob.failing (· == 3))).run .plain
      [.write .initiator [1], .read .responder, .read .responder, .write .responder [2],
        .read .initiator, .write .initiator [3]]
    ∃ p, x.sent .initiator = [p] ∧ p.plaintext = [3] ∧
      ((x.opened .plain .responder p).1 = .ok p.plaintext ∨ ¬ x.Healthy .responder ∧
        ∃ cause, (x.opened .plain .responder p).1 = .error (.store cause)) := by
  have hrun :
      let x := (start (alice.failing fun _ => false) (bob.failing (· == 3))).run .plain
        [.write .initiator [1], .read .responder, .read .responder, .write .responder [2],
          .read .initiator, .write .initiator [3]]
      (∀ side, ∀ p ∈ x.generated side, p.privateKey = some p.publicKey) ∧ x.KeysDistinct ∧
        x.initiated .responder = false ∧ x.superseded = false ∧
        (x.sent .initiator).map (·.plaintext) = [[3]] ∧
        ∀ p ∈ x.sent .initiator, ∀ entry ∈ p.envelope.entryFor (x.id .responder),
          entry.isHandshake = false ∧
          ∀ session ∈ (x.records .responder).session p.envelope.sender, session.skipped = [] ∧
            Session.WithinReach (x.party .responder).device.config session entry.key := by
    decide +kernel
  obtain ⟨hown, hdistinct, hone, hkept, hplaintext, hpost⟩ := hrun
  obtain ⟨p, hsent, hp⟩ := List.map_eq_singleton_iff.mp hplaintext
  obtain ⟨hreach, hunmistaken⟩ :=
    reach_and_unmistaken_of_plain (S := .plain) (hpost p (hsent ▸ List.mem_singleton_self p))
  exact ⟨p, hsent, hp, opened_run_of_kept Suite.plain_cipherUndoes
    (acquainted_failing acquainted_alice_bob _ _) _ ⟨.of_plain hown, hdistinct, hone, fun _ => hkept⟩
    hsent hreach hunmistaken⟩

/-- Bob's store fails when he has saved the session of Alice's first envelope, and not yet his
bundle. He gives the envelope up and answers. Alice's second envelope, written before she read the
answer, names the one-time key that is still in his bundle: he replaces his session, and refuses what
Alice writes then. -/
theorem refused_after_replacement :
    Acquainted (alice.failing fun _ => false) (bob.failing (· == 3)) ∧
    let x := (start (alice.failing fun _ => false) (bob.failing (· == 3))).run .plain
      [.write .initiator [1], .write .initiator [2], .read .responder, .lose .initiator,
        .write .responder [3], .read .initiator, .read .responder, .write .initiator [4]]
    x.read .initiator = 1 ∧ x.read .responder = 1 ∧ x.initiated .responder = false ∧
      ∃ p, x.sent .initiator = [p] ∧ p.plaintext = [4] ∧
        (x.opened .plain .responder p).1 = .error (.session (.rejected .ratchetTooEarly)) := by
  have hrun :
      let x := (start (alice.failing fun _ => false) (bob.failing (· == 3))).run .plain
        [.write .initiator [1], .write .initiator [2], .read .responder, .lose .initiator,
          .write .responder [3], .read .initiator, .read .responder, .write .initiator [4]]
      x.read .initiator = 1 ∧ x.read .responder = 1 ∧ x.initiated .responder = false ∧
        (x.sent .initiator).map (·.plaintext) = [[4]] ∧
        ∀ p ∈ x.sent .initiator, (x.opened .plain .responder p).1 =
          .error (.session (.rejected .ratchetTooEarly)) := by
    decide +kernel
  obtain ⟨hread, hreadToo, hone, hplaintext, hrefused⟩ := hrun
  obtain ⟨p, hsent, hp⟩ := List.map_eq_singleton_iff.mp hplaintext
  exact ⟨acquainted_failing acquainted_alice_bob _ _, hread, hreadToo, hone, p, hsent, hp,
    hrefused p (hsent ▸ List.mem_singleton_self p)⟩

end EndToEnd.Correspondence

import EndToEnd.Device.Decryption
import EndToEnd.Proofs.Bundle
import EndToEnd.Proofs.Device.Running

/-!
# What decrypting does

An entry is opened with the stored session, or with a new one if it names a one-time key that is
still held. Then the message is opened, the session after it is saved, and with a new session the
bundle without the one-time key. Only between these two can a refusal leave something behind: the
session, and the one-time key still in the bundle.

Main statements:

- `openEntry_ok`, `OpensWith.reads`: what an entry is opened with;
- `saves_outcome`, `decrypt_outcome`, `decrypt_cases`, `decrypt_ok`: what is saved, however far
  decrypting comes;
- `OpensWith.decrypt_stored`, `OpensWith.decrypt_fresh`: the same, for a session that is stored and
  for one that the envelope starts;
- `OpensWith.decrypt_refused`: an envelope whose message is refused changes nothing;
- `Unlocks.decrypt_cases`, `Unlocks.decrypts`, `decrypt_reads`: an envelope whose message opens is
  decrypted as far as its body can be, unless a call is refused.
-/

namespace EndToEnd.Device

variable {σ : Type} [Store σ] {S : Suite} {d : Device} {r : Records} {sender : DeviceId}
  {entry : Wire.Entry} {opening : Opening} {s s' : State σ}

/-- What an entry from a device is opened with, from what is stored. -/
inductive OpensWith (S : Suite) (d : Device) (r : Records) (sender : DeviceId)
    (entry : Wire.Entry) : Opening → Prop
  /-- A ratchet message, with the stored session. -/
  | message {session : Session} (plain : entry.isHandshake = false)
      (stored : r.session sender = some session) :
      OpensWith S d r sender entry ⟨session, entry.key, none⟩
  /-- A handshake message that names no key of our bundle, with the stored session. -/
  | known {m : Wire.HandshakeMessage} {bundle : Bundle} {session : Session}
      (handshake : entry.isHandshake = true)
      (decoded : Wire.HandshakeMessage.decode entry.key = .ok m)
      (current : r.current = some bundle) (notHeld : bundle.find? m.oneTimeKey = none)
      (stored : r.session sender = some session) :
      OpensWith S d r sender entry ⟨session, m.message, none⟩
  /-- A handshake message that names a one-time key of our bundle, with the session it starts. -/
  | fresh {m : Wire.HandshakeMessage} {bundle : Bundle} {oneTime : KeyPair} {secret body : Bytes}
      {mac : Mac} {first : Wire.RatchetMessage} {session : Session} {env : Environment}
      (handshake : entry.isHandshake = true)
      (decoded : Wire.HandshakeMessage.decode entry.key = .ok m)
      (current : r.current = some bundle) (held : bundle.find? m.oneTimeKey = some oneTime)
      (agreed : Handshake.responderSecret S bundle.identity oneTime m.identityKey m.baseKey =
        .ok secret)
      (split : Wire.splitMac m.message = .ok (body, mac))
      (read : Wire.RatchetMessage.decode body = .ok first)
      (started : Session.responder S secret first.ratchetKey = .ok session) :
      OpensWith S d r sender entry ⟨session, m.message,
        some ((bundle.erase m.oneTimeKey).replenish S d.config.oneTimeKeys env).2.1⟩

/-- What is stored decides the session, the payload, and whether a one-time key is used up. -/
theorem OpensWith.unique {other : Opening} (h : OpensWith S d r sender entry opening)
    (h' : OpensWith S d r sender entry other) :
    other.session = opening.session ∧ other.payload = opening.payload ∧
      (other.bundle = none ↔ opening.bundle = none) := by
  cases h with
  | message plain stored =>
    cases h' with
    | message _ stored' =>
      exact ⟨Option.some.inj (stored'.symm.trans stored), rfl, .rfl⟩
    | known handshake => rw [plain] at handshake; exact nomatch handshake
    | fresh handshake => rw [plain] at handshake; exact nomatch handshake
  | known handshake decoded current notHeld stored =>
    cases h' with
    | message plain => rw [plain] at handshake; exact nomatch handshake
    | known _ decoded' _ _ stored' =>
      obtain rfl := Except.ok.inj (decoded'.symm.trans decoded)
      exact ⟨Option.some.inj (stored'.symm.trans stored), rfl, .rfl⟩
    | fresh _ decoded' current' held =>
      obtain rfl := Except.ok.inj (decoded'.symm.trans decoded)
      obtain rfl := Option.some.inj (current'.symm.trans current)
      exact nomatch notHeld.symm.trans held
  | fresh handshake decoded current held agreed split read started =>
    cases h' with
    | message plain => rw [plain] at handshake; exact nomatch handshake
    | known _ decoded' current' notHeld =>
      obtain rfl := Except.ok.inj (decoded'.symm.trans decoded)
      obtain rfl := Option.some.inj (current'.symm.trans current)
      exact nomatch notHeld.symm.trans held
    | fresh _ decoded' current' held' agreed' split' read' started' =>
      obtain rfl := Except.ok.inj (decoded'.symm.trans decoded)
      obtain rfl := Option.some.inj (current'.symm.trans current)
      obtain rfl := Option.some.inj (held'.symm.trans held)
      obtain rfl := Except.ok.inj (agreed'.symm.trans agreed)
      obtain ⟨rfl, rfl⟩ := Prod.mk.inj (Except.ok.inj (split'.symm.trans split))
      obtain rfl := Except.ok.inj (read'.symm.trans read)
      obtain rfl := Except.ok.inj (started'.symm.trans started)
      exact ⟨rfl, rfl, ⟨nofun, nofun⟩⟩

/-- A ratchet message is opened with the stored session. -/
theorem OpensWith.of_plain (h : OpensWith S d r sender entry opening)
    (hplain : entry.isHandshake = false) :
    r.session sender = some opening.session ∧ opening.payload = entry.key := by
  cases h with
  | message _ stored => exact ⟨stored, rfl⟩
  | known handshake => rw [hplain] at handshake; exact nomatch handshake
  | fresh handshake => rw [hplain] at handshake; exact nomatch handshake

/-- An entry that uses no one-time key up is opened with the stored session. -/
theorem OpensWith.stored (h : OpensWith S d r sender entry opening) (hnone : opening.bundle = none) :
    r.session sender = some opening.session := by
  cases h with
  | message _ stored => exact stored
  | known _ _ _ _ stored => exact stored
  | fresh => exact nomatch hnone

/-- An entry that uses a one-time key up is opened with a session that has neither sent nor received
anything. -/
theorem OpensWith.unused_of_fresh (h : OpensWith S d r sender entry opening)
    (hsome : opening.bundle ≠ none) :
    opening.session.ratchet = none ∧ opening.session.skipped = [] := by
  cases h with
  | message => exact absurd rfl hsome
  | known => exact absurd rfl hsome
  | fresh _ _ _ _ _ _ _ started =>
    obtain ⟨their, -, hsession⟩ := bind_eq_ok.mp started
    obtain rfl := Except.ok.inj hsession
    exact ⟨rfl, rfl⟩

section Within

variable {R : State σ → State σ → Prop} (hR : Chains R)
  (hquery : ∀ {α : Type} {request : Store.Request α}, IsQuery request → Within R (ask request))
include hR hquery

theorem openEntry_within (S : Suite) (d : Device) (sender : DeviceId) (entry : Wire.Entry) :
    Within R (d.openEntry S sender entry) := by
  refine Within.bind hR (hquery (isQuery_session sender)) fun existing => ?_
  split
  next =>
    refine Within.bind hR (.attempt hR _ _) fun m =>
      .bind hR (.currentBundle hR (hquery isQuery_current)) fun bundle => ?_
    split
    next => exact .bind hR (.attempt hR _ _) fun secret => .bind hR (.attempt hR _ _) fun parts =>
        .bind hR (.attempt hR _ _) fun first => .bind hR (.attempt hR _ _) fun session =>
        .bind hR (.draw hR _) fun bundle => .pure hR _
    next => exact .pure hR _
    next => exact .throw hR _
  next =>
    split
    next => exact .pure hR _
    next => exact .throw hR _

/-- Whatever holds of queries and of replacing a session or our bundle holds of decrypting. -/
theorem decrypt_within_of_replaceBundle
    (hsession : ∀ peer session, Within R (ask (.saveSession peer session)))
    (hbundle : ∀ bundle, Within R (replaceBundle bundle)) (S : Suite) (d : Device)
    (e : Wire.Envelope) : Within R (d.decrypt S e) := by
  unfold decrypt
  split
  next => exact .throw hR _
  next entry _ =>
    refine Within.bind hR (openEntry_within hR hquery S d e.sender entry) fun opening =>
      .bind hR (.now hR) fun now => .bind hR (.attempt hR _ _) fun opened =>
      .bind hR (.attempt hR _ _) fun plaintext => .bind hR (hsession _ _) fun _ => ?_
    split
    next => exact .pure hR _
    next bundle _ => exact .bind hR (hbundle bundle) fun _ => .pure hR _

end Within

/-- Whatever holds of every call, and of noting that the bundle has changed, holds of decrypting. -/
theorem decrypt_within {R : State σ → State σ → Prop} (hR : Chains R)
    (hask : ∀ {α : Type} (request : Store.Request α), Within R (ask request))
    (hnote : ∀ unpublished, Within R (setUnpublished unpublished)) (S : Suite) (d : Device)
    (e : Wire.Envelope) : Within R (d.decrypt S e) :=
  decrypt_within_of_replaceBundle hR (fun _ => hask _) (fun _ _ => hask _)
    (fun _ => .bind hR (hask _) fun _ => hnote true) S d e

/-- Opening an entry takes no time. -/
theorem openEntry_clock (S : Suite) (d : Device) (sender : DeviceId) (entry : Wire.Entry)
    (s : State σ) : (d.openEntry S sender entry s).2.env.clock = s.env.clock := by
  refine KeepsClock.bind (.ask _) (fun existing => ?_) s
  split
  next =>
    refine .bind (.attempt _ _) fun m => .bind .currentBundle fun bundle => ?_
    split
    next => exact .bind (.attempt _ _) fun secret => .bind (.attempt _ _) fun parts =>
        .bind (.attempt _ _) fun first => .bind (.attempt _ _) fun session =>
        .bind (.draw fun env => Bundle.clock_replenish S _ _ env) fun bundle => .pure _
    next => exact .pure _
    next => exact .throw _
  next =>
    split
    next => exact .pure _
    next => exact .throw _

variable [LawfulStore σ]

theorem openEntry_ok (h : d.openEntry S sender entry s = (.ok opening, s')) :
    OpensWith S d s.records sender entry opening := by
  obtain ⟨existing, s₁, hexisting, h⟩ := bind_run_ok h
  obtain ⟨rfl, hkeeps⟩ := query_ok (isQuery_session sender) hexisting
  have hanswer : (s.records.answer (.session sender)).1 = s.records.session sender := rfl
  rw [hanswer] at h
  split at h
  next hhandshake =>
    obtain ⟨m, hm, h⟩ := attempt_bind_ok h
    obtain ⟨bundle, s₂, hbundle, h⟩ := bind_run_ok h
    obtain ⟨hcurrent, -⟩ := currentBundle_ok hbundle
    rw [hkeeps.1] at hcurrent
    cases hheld : bundle.find? m.oneTimeKey with
    | some oneTime =>
      rw [hheld] at h
      obtain ⟨secret, hsecret, h⟩ := attempt_bind_ok h
      obtain ⟨⟨body, mac⟩, hparts, h⟩ := attempt_bind_ok h
      obtain ⟨first, hfirst, h⟩ := attempt_bind_ok h
      obtain ⟨session, hsession, h⟩ := attempt_bind_ok h
      obtain ⟨rest, s₃, hrest, h⟩ := bind_run_ok h
      obtain rfl := Except.ok.inj (Prod.mk.inj hrest).1
      obtain rfl := Except.ok.inj (Prod.mk.inj h).1
      exact .fresh hhandshake hm hcurrent hheld hsecret hparts hfirst hsession
    -- without the one-time key the session with the sender has to be there
    | none =>
      cases hstored : s.records.session sender with
      | none =>
        rw [hheld, hstored] at h
        exact nomatch (Prod.mk.inj h).1
      | some session =>
        rw [hheld, hstored] at h
        obtain rfl := Except.ok.inj (Prod.mk.inj h).1
        exact .known hhandshake hm hcurrent hheld hstored
  next hplain =>
    cases hstored : s.records.session sender with
    | none =>
      rw [hstored] at h
      exact nomatch (Prod.mk.inj h).1
    | some session =>
      rw [hstored] at h
      obtain rfl := Except.ok.inj (Prod.mk.inj h).1
      exact .message (Bool.eq_false_iff.mpr hplain) hstored

/-- An entry that what is stored can open is opened so, unless a call is refused. -/
theorem OpensWith.reads (h : OpensWith S d s.records sender entry opening) :
    Reads (d.openEntry S sender entry) s (OpensWith S d s.records sender entry) := by
  refine (Reads.ask (P := (· = s.records.session sender)) (isQuery_session sender) rfl).bind ?_
  rintro existing s₁ rfl hkeeps
  have hsame : s₁.records = s.records := hkeeps.1
  cases h with
  | message plain stored =>
    rw [if_neg (by rw [plain]; exact Bool.false_ne_true), stored]
    exact .pure (.message plain stored)
  | @known m bundle session handshake decoded current notHeld stored =>
    rw [if_pos handshake, stored]
    refine (Reads.attempt (P := (· = m)) decoded rfl).bind ?_
    rintro m s₂ rfl hkeeps₂
    refine (Reads.currentBundle (P := (· = bundle))
      (by rw [hkeeps₂.1, hsame]; exact current) rfl).bind ?_
    rintro b s₃ rfl -
    rw [notHeld]
    exact .pure (.known handshake decoded current notHeld stored)
  | @fresh m bundle oneTime secret body mac first session env handshake decoded current held agreed
      split read started =>
    rw [if_pos handshake]
    refine (Reads.attempt (P := (· = m)) decoded rfl).bind ?_
    rintro m s₂ rfl hkeeps₂
    refine (Reads.currentBundle (P := (· = bundle))
      (by rw [hkeeps₂.1, hsame]; exact current) rfl).bind ?_
    rintro b s₃ rfl -
    rw [held]
    refine (Reads.attempt (P := (· = secret)) agreed rfl).bind ?_
    rintro secret s₄ rfl -
    refine (Reads.attempt (P := (· = (body, mac))) split rfl).bind ?_
    rintro parts s₅ rfl -
    refine (Reads.attempt (P := (· = first)) read rfl).bind ?_
    rintro first s₆ rfl -
    refine (Reads.attempt (P := (· = session)) started rfl).bind ?_
    rintro session s₇ rfl -
    refine (Reads.draw (P := fun b' => ∃ env, b' =
      ((b.erase m.oneTimeKey).replenish S d.config.oneTimeKeys env).2.1) ⟨_, rfl⟩).bind ?_
    rintro b' s₈ ⟨env, rfl⟩ -
    exact .pure (.fresh handshake decoded current held agreed split read started)

/-- The records after an opened entry: the session, and the bundle without the one-time key that the
entry used up. -/
def Opening.saved (o : Opening) (r : Records) (sender : DeviceId) (after : Session) : Records :=
  match o.bundle with
  | none => r.withSession sender after
  | some bundle => (r.withSession sender after).withCurrent bundle

/-- What is saved, in one record: the session, and the bundle if there is one to save. -/
theorem Opening.saved_eq (o : Opening) (r : Records) (sender : DeviceId) (after : Session) :
    o.saved r sender after = { r with
      session := Function.update r.session sender (some after)
      current := o.bundle <|> r.current } := by
  unfold saved
  cases o.bundle <;> rfl

@[simp] theorem Opening.saved_session (o : Opening) (r : Records) (sender : DeviceId)
    (after : Session) :
    (o.saved r sender after).session = Function.update r.session sender (some after) := by
  rw [saved_eq]

@[simp] theorem Opening.saved_bundle (o : Opening) (r : Records) (sender : DeviceId)
    (after : Session) : (o.saved r sender after).bundle = r.bundle := by
  rw [saved_eq]

/-- The entry for the device, what it is opened with, and the body key and the session that come of
it. -/
structure Unlocks (S : Suite) (d : Device) (r : Records) (e : Wire.Envelope) (entry : Wire.Entry)
    (opening : Opening) (now : UInt64) (bodyKey : Bytes) (after : Session) : Prop where
  addressed : e.entryFor d.id = some entry
  opensWith : OpensWith S d r e.sender entry opening
  opened : opening.session.openMessage S d.config now opening.payload entry.isHandshake =
    .ok (bodyKey, after)

/-- What is left to do when an envelope is decrypted: its session is saved, and then the bundle, if
there is one to save. The store may refuse the one or the other. -/
theorem saves_outcome (opening : Opening) (sender : DeviceId) (after : Session) (a : α)
    (s : State σ) :
    let saves : Action σ α := do
      ask (.saveSession sender after)
      match opening.bundle with
      | none => pure ()
      | some bundle => replaceBundle bundle
      return a
    (∃ cause s', saves s = (.error cause, s') ∧ Keeps s s') ∨
    (∃ s', saves s = (.ok a, s') ∧ s'.env = s.env ∧
      s'.records = opening.saved s.records sender after ∧
      s'.unpublished = (s.unpublished || opening.bundle.isSome)) ∨
    ∃ cause s', saves s = (.error (.store cause), s') ∧ opening.bundle ≠ none ∧ ¬ s.Healthy ∧
      s'.records = s.records.withSession sender after ∧ s'.unpublished = s.unpublished := by
  intro saves
  rcases ask_cases (.saveSession sender after) s with
    ⟨s₁, hsave, hrecords, henv, hflag, hhealthy⟩ | ⟨-, cause, s₁, hsave, hrecords, -, hflag⟩
  · -- from here on the session is saved, and only the bundle is left
    have hsaved : s₁.records = s.records.withSession sender after := hrecords
    have hrun : saves s = _ := run_bind_ok hsave
    refine .inr ?_
    cases hbundle : opening.bundle with
    | none =>
      simp only [hbundle] at hrun
      refine .inl ⟨s₁, hrun, henv, ?_, ?_⟩
      · rw [hsaved, Opening.saved, hbundle]
      · rw [hflag, Option.isSome_none, Bool.or_false]
    | some bundle =>
      simp only [hbundle] at hrun
      rcases ask_cases (.saveCurrent bundle) s₁ with
        ⟨s₂, hcurrent, hrecords₂, henv₂, -⟩ | ⟨hno, cause, s₂, hcurrent, hrecords₂, -, hflag₂⟩
      · refine .inl ⟨{ s₂ with unpublished := true }, ?_, henv₂.trans henv, ?_, ?_⟩
        · exact hrun.trans
            (run_bind_ok ((run_bind_ok hcurrent).trans (run_setUnpublished true s₂)))
        · rw [Opening.saved, hbundle, ← hsaved]
          exact hrecords₂
        · rw [Option.isSome_some, Bool.or_true]
      · exact .inr ⟨_, s₂, hrun.trans (run_bind_error (run_bind_error hcurrent)), nofun,
          fun h => hno (hhealthy h), hrecords₂.trans hsaved, hflag₂.trans hflag⟩
  · exact .inl ⟨_, s₁, run_bind_error hsave, hrecords, hflag⟩

/-- Decrypting is refused with nothing saved, or everything is saved and the body decrypted, or the
store refuses between the session and the bundle. -/
theorem decrypt_outcome (S : Suite) (d : Device) (e : Wire.Envelope) (s : State σ) :
    (∃ cause s', d.decrypt S e s = (.error cause, s') ∧ Keeps s s') ∨
    ∃ entry opening bodyKey after,
      Unlocks S d s.records e entry opening s.env.clock bodyKey after ∧
      ((∃ plaintext s', d.decrypt S e s = (.ok plaintext, s') ∧
          S.decrypt bodyKey e.iv.bytes e.body = .ok plaintext ∧
          s'.records = opening.saved s.records e.sender after ∧
          s'.unpublished = (s.unpublished || opening.bundle.isSome)) ∨
        ∃ cause s', d.decrypt S e s = (.error (.store cause), s') ∧ opening.bundle ≠ none ∧
          ¬ s.Healthy ∧ s'.records = s.records.withSession e.sender after ∧
          s'.unpublished = s.unpublished) := by
  unfold decrypt
  cases hentry : e.entryFor d.id with
  | none => exact .inl ⟨_, s, rfl, .refl s⟩
  | some entry =>
    have hkeeps := openEntry_within keeps_chains (σ := σ) query_keeps S d e.sender entry s
    have hhealthy := openEntry_within staysHealthy_chains (σ := σ) (fun _ => ask_staysHealthy _) S d
      e.sender entry s
    have hclock := openEntry_clock S d e.sender entry s
    cases hopen : d.openEntry S e.sender entry s with
    | mk result s₁ =>
      rw [hopen] at hkeeps hhealthy hclock
      cases result with
      | error cause => exact .inl ⟨cause, s₁, run_bind_error hopen, hkeeps⟩
      | ok opening =>
        have hopens := openEntry_ok hopen
        dsimp only at hclock
        simp only [run_bind_ok hopen, run_bind_ok (run_now s₁), hclock]
        -- up to the saves nothing is stored, so a refusal keeps what was there
        have hattempt := run_attempt DeviceError.session
          (opening.session.openMessage S d.config s.env.clock opening.payload entry.isHandshake) s₁
        cases hmessage : opening.session.openMessage S d.config s.env.clock opening.payload
            entry.isHandshake with
        | error cause =>
          rw [hmessage] at hattempt
          exact .inl ⟨_, s₁, run_bind_error hattempt, hkeeps⟩
        | ok opened =>
          obtain ⟨bodyKey, after⟩ := opened
          rw [hmessage] at hattempt
          simp only [run_bind_ok hattempt]
          have hbody := run_attempt DeviceError.payload (S.decrypt bodyKey e.iv.bytes e.body) s₁
          cases hplain : S.decrypt bodyKey e.iv.bytes e.body with
          | error cause =>
            rw [hplain] at hbody
            exact .inl ⟨_, s₁, run_bind_error hbody, hkeeps⟩
          | ok plaintext =>
            rw [hplain] at hbody
            simp only [run_bind_ok hbody]
            have hunlocks : Unlocks S d s.records e entry opening s.env.clock bodyKey after :=
              ⟨hentry, hopens, hmessage⟩
            rcases saves_outcome opening e.sender after plaintext s₁ with
              ⟨cause, s₂, hrun, hsaved⟩ | ⟨s₂, hrun, -, hrecords, hflag⟩ |
              ⟨cause, s₂, hrun, hbundle, hno, hrecords, hflag⟩
            · exact .inl ⟨cause, s₂, hrun, hkeeps.trans hsaved⟩
            · exact .inr ⟨entry, opening, bodyKey, after, hunlocks, .inl ⟨plaintext, s₂, hrun, hplain,
                hkeeps.1 ▸ hrecords, hkeeps.2 ▸ hflag⟩⟩
            · exact .inr ⟨entry, opening, bodyKey, after, hunlocks, .inr ⟨cause, s₂, hrun, hbundle,
                fun h => hno (hhealthy h), hkeeps.1 ▸ hrecords, hflag.trans hkeeps.2⟩⟩

/-- What decrypting leaves in the records. -/
theorem decrypt_cases (S : Suite) (d : Device) (e : Wire.Envelope) (s : State σ) :
    (∃ cause s', d.decrypt S e s = (.error cause, s') ∧ Keeps s s') ∨
    ∃ entry opening now bodyKey after, Unlocks S d s.records e entry opening now bodyKey after ∧
      ((∃ plaintext s', d.decrypt S e s = (.ok plaintext, s') ∧
          S.decrypt bodyKey e.iv.bytes e.body = .ok plaintext ∧
          s'.records = opening.saved s.records e.sender after) ∨
        ∃ cause s', d.decrypt S e s = (.error cause, s') ∧ opening.bundle ≠ none ∧ ¬ s.Healthy ∧
          s'.records = s.records.withSession e.sender after) := by
  refine (decrypt_outcome S d e s).imp_right ?_
  rintro ⟨entry, opening, bodyKey, after, hunlocks, hresult⟩
  refine ⟨entry, opening, s.env.clock, bodyKey, after, hunlocks, hresult.imp ?_ ?_⟩
  · rintro ⟨plaintext, s', hdecrypt, hplain, hrecords, -⟩
    exact ⟨plaintext, s', hdecrypt, hplain, hrecords⟩
  · rintro ⟨cause, s', hdecrypt, hsome, hno, hrecords, -⟩
    exact ⟨_, s', hdecrypt, hsome, hno, hrecords⟩

/-- What is read has been unlocked, and what that changes is saved. -/
theorem decrypt_ok {e : Wire.Envelope} {plaintext : Bytes} {s' : State σ}
    (h : d.decrypt S e s = (.ok plaintext, s')) :
    ∃ entry opening bodyKey after,
      Unlocks S d s.records e entry opening s.env.clock bodyKey after ∧
      S.decrypt bodyKey e.iv.bytes e.body = .ok plaintext ∧
      s'.records = opening.saved s.records e.sender after := by
  rcases decrypt_outcome S d e s with ⟨_, _, hrefused, -⟩ |
    ⟨entry, opening, bodyKey, after, hunlocks, ⟨_, _, hdecrypt, hplain, hrecords, -⟩ |
      ⟨_, _, hrefused, -⟩⟩
  · cases hrefused.symm.trans h
  · obtain ⟨hplaintext, rfl⟩ := Prod.mk.inj (hdecrypt.symm.trans h)
    obtain rfl := Except.ok.inj hplaintext
    exact ⟨entry, opening, bodyKey, after, hunlocks, hplain, hrecords⟩
  · cases hrefused.symm.trans h

/-- An envelope that the stored session opens is refused with nothing saved, or that session is
saved as the message leaves it. -/
theorem OpensWith.decrypt_stored {e : Wire.Envelope} {session : Session} {payload : Bytes}
    (hentry : e.entryFor d.id = some entry)
    (hopens : OpensWith S d s.records e.sender entry ⟨session, payload, none⟩) :
    (∃ cause s', d.decrypt S e s = (.error cause, s') ∧ Keeps s s') ∨
    ∃ now bodyKey after plaintext s',
      session.openMessage S d.config now payload entry.isHandshake = .ok (bodyKey, after) ∧
      d.decrypt S e s = (.ok plaintext, s') ∧ s'.records = s.records.withSession e.sender after := by
  refine (decrypt_cases S d e s).imp_right ?_
  rintro ⟨entry', opening, now, bodyKey, after, ⟨haddressed, hopens', hopened⟩, hresult⟩
  obtain rfl := Option.some.inj (hentry.symm.trans haddressed)
  obtain ⟨hsession, hpayload, hbundle⟩ := hopens.unique hopens'
  have hnone : opening.bundle = none := hbundle.mpr rfl
  rw [hsession, hpayload] at hopened
  rcases hresult with ⟨plaintext, s', hdecrypt, -, hrecords⟩ | ⟨cause, s', -, hsome, -⟩
  · rw [Opening.saved, hnone] at hrecords
    exact ⟨now, bodyKey, after, plaintext, s', hopened, hdecrypt, hrecords⟩
  · exact absurd hnone hsome

/-- An envelope that starts a session is refused with nothing saved, or the new session is saved as
the message leaves it: with the bundle without the one-time key, or, if the store fails in between,
without the bundle. -/
theorem OpensWith.decrypt_fresh {e : Wire.Envelope} {session : Session} {payload : Bytes}
    {bundle own : Bundle} {m : Wire.HandshakeMessage} (hentry : e.entryFor d.id = some entry)
    (hopens : OpensWith S d s.records e.sender entry ⟨session, payload, some bundle⟩)
    (hdecoded : Wire.HandshakeMessage.decode entry.key = .ok m)
    (hcurrent : s.records.current = some own) :
    (∃ cause s', d.decrypt S e s = (.error cause, s') ∧ Keeps s s') ∨
    ∃ now bodyKey after,
      session.openMessage S d.config now payload entry.isHandshake = .ok (bodyKey, after) ∧
      ((∃ plaintext s' env, d.decrypt S e s = (.ok plaintext, s') ∧
          s'.records = (s.records.withSession e.sender after).withCurrent
            ((own.erase m.oneTimeKey).replenish S d.config.oneTimeKeys env).2.1) ∨
        ∃ cause s', d.decrypt S e s = (.error cause, s') ∧ ¬ s.Healthy ∧
          s'.records = s.records.withSession e.sender after) := by
  refine (decrypt_cases S d e s).imp_right ?_
  rintro ⟨entry', opening, now, bodyKey, after, ⟨haddressed, hopens', hopened⟩, hresult⟩
  obtain rfl := Option.some.inj (hentry.symm.trans haddressed)
  obtain ⟨hsession, hpayload, hbundle⟩ := hopens.unique hopens'
  rw [hsession, hpayload] at hopened
  refine ⟨now, bodyKey, after, hopened, ?_⟩
  rcases hresult with ⟨plaintext, s', hdecrypt, -, hrecords⟩ |
    ⟨cause, s', hdecrypt, -, hno, hrecords⟩
  · cases hopens' with
    | message => exact nomatch hbundle.mp rfl
    | known => exact nomatch hbundle.mp rfl
    | @fresh m' own' oneTime secret body mac first session' env handshake decoded current =>
      obtain rfl := Except.ok.inj (hdecoded.symm.trans decoded)
      obtain rfl := Option.some.inj (hcurrent.symm.trans current)
      exact .inl ⟨plaintext, s', env, hdecrypt, hrecords⟩
  · exact .inr ⟨cause, s', hdecrypt, hno, hrecords⟩

/-- An envelope whose message is refused is refused with nothing saved. -/
theorem OpensWith.decrypt_refused {e : Wire.Envelope} {P : SessionError → Prop}
    (hentry : e.entryFor d.id = some entry)
    (hopens : OpensWith S d s.records e.sender entry opening)
    (hmessage : ∀ now, ∃ cause, P cause ∧
      opening.session.openMessage S d.config now opening.payload entry.isHandshake =
        .error cause) :
    ∃ refusal s', d.decrypt S e s = (.error refusal, s') ∧ Keeps s s' ∧
      (s.Healthy → ∃ cause, P cause ∧ refusal = .session cause) := by
  unfold decrypt
  simp only [hentry]
  rcases hopens.reads with ⟨opening', s₁, hopen, hopens', hkeeps, -⟩ |
    ⟨hno, cause, s₁, hopen, hkeeps⟩
  · obtain ⟨hsession, hpayload, -⟩ := hopens.unique hopens'
    obtain ⟨cause, hcause, hrefused⟩ := hmessage s₁.env.clock
    rw [← hsession, ← hpayload] at hrefused
    have hattempt : (attempt .session (.error cause) : Action σ (Bytes × Session)) s₁ =
        (.error (.session cause), s₁) := run_attempt _ _ s₁
    simp only [run_bind_ok hopen, run_bind_ok (run_now s₁), hrefused]
    exact ⟨_, s₁, run_bind_error hattempt, hkeeps, fun _ => ⟨cause, hcause, rfl⟩⟩
  · exact ⟨_, s₁, run_bind_error hopen, hkeeps, fun h => absurd h hno⟩

/-- An envelope whose message opens is decrypted as far as its body can be, unless a call is refused:
a body that cannot be changes nothing. -/
theorem Unlocks.decrypt_cases {e : Wire.Envelope} {bodyKey : Bytes} {after : Session}
    (h : Unlocks S d s.records e entry opening s.env.clock bodyKey after) :
    (¬ s.Healthy ∧ ∃ cause s', d.decrypt S e s = (.error (.store cause), s')) ∨
    (∃ plaintext s', S.decrypt bodyKey e.iv.bytes e.body = .ok plaintext ∧
      d.decrypt S e s = (.ok plaintext, s')) ∨
    ∃ cause s', S.decrypt bodyKey e.iv.bytes e.body = .error cause ∧
      d.decrypt S e s = (.error (.payload cause), s') ∧ Keeps s s' ∧
      s'.env.clock = s.env.clock ∧ (s.Healthy → s'.Healthy) := by
  unfold decrypt
  simp only [h.addressed]
  rcases h.opensWith.reads with
    ⟨opening', s₁, hopen, hopens, hkeeps, hhealthy⟩ | ⟨hno, cause, s₁, hopen, -⟩
  · obtain ⟨hsession, hpayload, -⟩ := h.opensWith.unique hopens
    have hopened := h.opened
    have hclock := openEntry_clock S d e.sender entry s
    rw [hopen] at hclock
    dsimp only at hclock
    rw [← hsession, ← hpayload] at hopened
    have hattempt : (attempt .session (.ok (bodyKey, after)) : Action σ _) s₁ =
        (.ok (bodyKey, after), s₁) := run_attempt _ _ s₁
    have hbody := run_attempt (σ := σ) DeviceError.payload (S.decrypt bodyKey e.iv.bytes e.body) s₁
    simp only [run_bind_ok hopen, run_bind_ok (run_now s₁), hclock, hopened, run_bind_ok hattempt]
    cases hplain : S.decrypt bodyKey e.iv.bytes e.body with
    | error cause =>
      rw [hplain] at hbody
      exact .inr (.inr ⟨cause, s₁, rfl, run_bind_error hbody, hkeeps, hclock, hhealthy⟩)
    | ok plaintext =>
      rw [hplain] at hbody
      simp only [run_bind_ok hbody]
      rcases ask_cases (.saveSession e.sender after) s₁ with
        ⟨s₂, hsave, -, -, -, hhealthy₂⟩ | ⟨hno, cause, s₂, hsave, -⟩
      · simp only [run_bind_ok hsave]
        cases opening'.bundle with
        | none => exact .inr (.inl ⟨plaintext, s₂, rfl, rfl⟩)
        | some bundle =>
          rcases ask_cases (.saveCurrent bundle) s₂ with
            ⟨s₃, hcurrent, -⟩ | ⟨hno, cause, s₃, hcurrent, -⟩
          · exact .inr (.inl ⟨plaintext, _, rfl,
              run_bind_ok ((run_bind_ok hcurrent).trans (run_setUnpublished true s₃))⟩)
          · exact .inl ⟨fun h => hno (hhealthy₂ (hhealthy h)), cause, s₃,
              run_bind_error (run_bind_error hcurrent)⟩
      · exact .inl ⟨fun h => hno (hhealthy h), cause, s₂, run_bind_error hsave⟩
  · exact .inl ⟨hno, cause, s₁, run_bind_error hopen⟩

/-- An envelope whose message opens under the body's key is decrypted, unless a call is refused. -/
theorem decrypt_reads {e : Wire.Envelope} {plaintext : Bytes} (hentry : e.entryFor d.id = some entry)
    (hopens : OpensWith S d s.records e.sender entry opening)
    (hmessage : ∀ now, ∃ bodyKey after,
      opening.session.openMessage S d.config now opening.payload entry.isHandshake =
        .ok (bodyKey, after) ∧ S.decrypt bodyKey e.iv.bytes e.body = .ok plaintext) :
    (∃ s', d.decrypt S e s = (.ok plaintext, s')) ∨
      ¬ s.Healthy ∧ ∃ cause s', d.decrypt S e s = (.error (.store cause), s') := by
  obtain ⟨bodyKey, after, hopened, hplain⟩ := hmessage s.env.clock
  rcases Unlocks.decrypt_cases ⟨hentry, hopens, hopened⟩ with hrefused |
    ⟨plaintext', s', hplain', hdecrypt⟩ | ⟨cause, s', hrefused, -⟩
  · exact .inr hrefused
  · obtain rfl := Except.ok.inj (hplain.symm.trans hplain')
    exact .inl ⟨s', hdecrypt⟩
  · exact nomatch hplain.symm.trans hrefused

/-- An envelope that opens, and whose body can be decrypted, is decrypted on a store that refuses
nothing. Everything is saved. -/
theorem Unlocks.decrypts {e : Wire.Envelope} {bodyKey plaintext : Bytes} {after : Session}
    (h : Unlocks S d s.records e entry opening s.env.clock bodyKey after) (hhealthy : s.Healthy)
    (hplain : S.decrypt bodyKey e.iv.bytes e.body = .ok plaintext) :
    ∃ opening' s', d.decrypt S e s = (.ok plaintext, s') ∧
      OpensWith S d s.records e.sender entry opening' ∧
      (opening'.bundle = none ↔ opening.bundle = none) ∧
      s'.records = opening'.saved s.records e.sender after := by
  have hread : ∃ s', d.decrypt S e s = (.ok plaintext, s') := by
    rcases h.decrypt_cases with ⟨hno, -⟩ | ⟨plaintext', s', hplain', hdecrypt⟩ | ⟨cause, s', hrefused, -⟩
    · exact absurd hhealthy hno
    · obtain rfl := Except.ok.inj (hplain.symm.trans hplain')
      exact ⟨s', hdecrypt⟩
    · cases hplain.symm.trans hrefused
  obtain ⟨s', hdecrypt⟩ := hread
  obtain ⟨entry', opening', bodyKey', after', hunlocks, -, hrecords⟩ := decrypt_ok hdecrypt
  obtain rfl := Option.some.inj (h.addressed.symm.trans hunlocks.addressed)
  obtain ⟨hsession, hpayload, hbundle⟩ := h.opensWith.unique hunlocks.opensWith
  have hopened := hunlocks.opened
  rw [hsession, hpayload] at hopened
  obtain ⟨-, rfl⟩ := Prod.mk.inj (Except.ok.inj (h.opened.symm.trans hopened))
  exact ⟨opening', s', hdecrypt, hunlocks.opensWith, hbundle, hrecords⟩

end EndToEnd.Device

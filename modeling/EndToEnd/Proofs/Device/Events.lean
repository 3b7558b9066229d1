import EndToEnd.Proofs.Device.Lifetime
import EndToEnd.Proofs.Device.Sending

/-!
# What each event of a life changes

Of what a device has stored, an event changes little. The session with a peer is changed by
encrypting and by what the peer sends. Our bundle is changed by a handshake message that uses a
one-time key up, and stays the bundle of the same device with the same identity key. What is known of
a peer's bundle is changed by learning another one of that peer.

Main statements:

- `records_decrypt`, `keepsOwn_quiet`: what decrypting, and what neither encrypts nor decrypts, does
  to what is stored;
- `session_quiet`, `session_decrypt`: what becomes of the sessions;
- `current_step`, `bundle_step`: what becomes of our bundle and of those that were learned;
- `Owned.step`: a device keeps its identifier and its identity key;
- `UsedUp.step`: a one-time key that is used up does not come back.
-/

namespace EndToEnd.Lifetime

variable {σ : Type} [Store σ] [LawfulStore σ] {S : Suite} {peer other : DeviceId} {x : Lifetime σ}
  {own : Bundle} {e : Lifetime.Event}

/-- What a device has stored. -/
def records (x : Lifetime σ) : Records := x.state.records

/-- An event in which no session has a part. -/
def Event.IsQuiet : Event → Prop
  | .encrypt _ _ | .decrypt _ => False
  | _ => True

/-- An action does what it does whoever the device is, or nothing if it has not been started. -/
theorem records_does {α : Type} {action : Device → Device.Action σ α} {P : Records → Prop}
    (hno : P x.records) (haction : ∀ d, P (action d x.state).2.records) :
    P (x.does action).records := by
  unfold Lifetime.does
  cases x.device with
  | none => exact hno
  | some d => exact haction d

/-- Starting does what it does, in the new environment. -/
theorem records_start (S : Suite) (peer : DeviceId) (x : Lifetime σ) (config : Config)
    (env : Environment) :
    (x.step S peer (.start config env)).records =
      (Device.start S config { x.state with env }).2.records := by
  rw [Lifetime.step]
  split
  next h => rw [h]; rfl
  next h => rw [h]; rfl

/-- An envelope changes nothing that is stored, or what opening its entry makes of it is saved: all of
it, or the session only. -/
theorem records_decrypt (S : Suite) (peer : DeviceId) (x : Lifetime σ) (e : Wire.Envelope) :
    (x.step S peer (.decrypt e)).records = x.records ∨
    ∃ d entry opening now bodyKey after, x.device = some d ∧
      Device.Unlocks S d x.records e entry opening now bodyKey after ∧
      ((x.step S peer (.decrypt e)).records = opening.saved x.records e.sender after ∨
        (x.step S peer (.decrypt e)).records = x.records.withSession e.sender after) := by
  rw [Lifetime.step]
  cases hdevice : x.device with
  | none => exact .inl rfl
  | some d =>
    rcases Device.decrypt_cases S d e x.state with ⟨cause, state, h, hkeeps⟩ |
      ⟨entry, opening, now, bodyKey, after, hunlocks, hresult⟩
    · left
      simp only [h]
      exact hkeeps.1
    · refine .inr ⟨d, entry, opening, now, bodyKey, after, rfl, hunlocks, hresult.imp ?_ ?_⟩
      · rintro ⟨plaintext, state, h, -, hrecords⟩
        simp only [h]
        exact hrecords
      · rintro ⟨cause, state, h, -, -, hrecords⟩
        simp only [h]
        exact hrecords

/-- What neither encrypts nor decrypts keeps the sessions, and our bundle unless there was none. -/
theorem keepsOwn_quiet (h : e.IsQuiet) :
    (x.step S peer e).records.session = x.records.session ∧
      ((x.step S peer e).records.current = x.records.current ∨
        x.records.current = none ∧ ∃ count env, (x.step S peer e).records.current =
          some (Bundle.generate S count env).1) := by
  have hdoes {α : Type} {action : Device → Device.Action σ α}
      (hkeeps : ∀ d, Device.Within Device.KeepsOwn (action d)) :
      (x.does action).records.session = x.records.session ∧
        ((x.does action).records.current = x.records.current ∨
          x.records.current = none ∧ ∃ count env, (x.does action).records.current =
            some (Bundle.generate S count env).1) :=
    records_does (P := fun r => r.session = x.records.session ∧ (r.current = x.records.current ∨
      x.records.current = none ∧ ∃ count env, r.current = some (Bundle.generate S count env).1))
      ⟨rfl, .inl rfl⟩ fun d => ⟨(hkeeps d x.state).2, .inl (hkeeps d x.state).1⟩
  cases e with
  | encrypt recipients plaintext => exact h.elim
  | decrypt e => exact h.elim
  | start config env =>
    rw [records_start]
    rcases Device.start_cases S config ({ x.state with env } : Device.State σ) with
      hsame | ⟨hnone, env', hrecords⟩
    · rw [hsame]
      exact ⟨rfl, .inl rfl⟩
    · rw [hrecords]
      exact ⟨rfl, .inr ⟨hnone, _, env', rfl⟩⟩
  | learnBundle p => exact hdoes fun d => Device.learnBundle_keepsOwn d p
  | learnDevices list => exact hdoes fun d => Device.learnDevices_keepsOwn d list
  | publish => exact hdoes fun _ s => .of_records (Device.takeUnpublished_sameRecords s)
  | wait seconds => exact ⟨rfl, .inl rfl⟩

/-! ## Sessions -/

/-- Sessions are changed by encrypting and decrypting only. -/
theorem session_quiet (h : e.IsQuiet) : (x.step S peer e).records.session = x.records.session :=
  (keepsOwn_quiet h).1

/-- An envelope changes the session with its sender, to what opening its entry makes of it, or no
session. -/
theorem session_decrypt (S : Suite) (peer : DeviceId) (x : Lifetime σ) (e : Wire.Envelope) :
    (x.step S peer (.decrypt e)).records.session = x.records.session ∨
    ∃ d entry opening now bodyKey after, x.device = some d ∧
      Device.Unlocks S d x.records e entry opening now bodyKey after ∧
      (x.step S peer (.decrypt e)).records.session =
        Function.update x.records.session e.sender (some after) := by
  rcases records_decrypt S peer x e with
    hsame | ⟨d, entry, opening, now, bodyKey, after, hdevice, hunlocks, hsaved⟩
  · exact .inl (congrArg Records.session hsame)
  · refine .inr ⟨d, entry, opening, now, bodyKey, after, hdevice, hunlocks, ?_⟩
    rcases hsaved with hsaved | hsaved
    · rw [hsaved, Device.Opening.saved_session]
    · rw [hsaved]
      rfl

/-- Only what a device sends changes the session with it, apart from encrypting. -/
theorem session_decrypt_of_ne {e : Wire.Envelope} (h : e.sender ≠ other) :
    (x.step S peer (.decrypt e)).records.session other = x.records.session other := by
  rcases session_decrypt S peer x e with hsame | ⟨_, _, _, _, _, after, -, -, hupdate⟩
  · rw [hsame]
  · rw [hupdate, Function.update_of_ne h.symm]

/-! ## Bundles -/

/-- Encrypting seals for every device, and changes no bundle. -/
theorem bundles_encrypt (S : Suite) (peer : DeviceId) (x : Lifetime σ) (recipients : List String)
    (plaintext : Bytes) :
    (x.step S peer (.encrypt recipients plaintext)).records.bundle = x.records.bundle ∧
      (x.step S peer (.encrypt recipients plaintext)).records.current = x.records.current := by
  refine records_does
    (P := fun r => r.bundle = x.records.bundle ∧ r.current = x.records.current) ⟨rfl, rfl⟩
    fun d => ?_
  have htells := Device.encrypt_tells S d recipients plaintext peer x.state
  cases hencrypt : d.encrypt S recipients plaintext x.state with
  | mk result state =>
    rw [hencrypt] at htells
    cases result with
    | ok e => exact htells.1.bundles
    | error cause =>
      obtain ⟨lost, hlost⟩ := htells
      exact hlost.bundles

/-- Our bundle stays as it is, or is the first one, or has used up a one-time key that it held. -/
theorem current_step (S : Suite) (peer : DeviceId) (x : Lifetime σ) (e : Event) :
    (x.step S peer e).records.current = x.records.current ∨
    (x.records.current = none ∧ ∃ count env, (x.step S peer e).records.current =
      some (Bundle.generate S count env).1) ∨
    ∃ own name target env, x.records.current = some own ∧ (own.find? name).isSome ∧
      (x.step S peer e).records.current =
        some ((own.erase name).replenish S target env).2.1 := by
  by_cases hquiet : e.IsQuiet
  · exact (keepsOwn_quiet hquiet).2.imp_right .inl
  cases e with
  | encrypt recipients plaintext => exact .inl (bundles_encrypt S peer x recipients plaintext).2
  | decrypt e =>
    rcases records_decrypt S peer x e with
      hsame | ⟨d, entry, opening, now, bodyKey, after, -, hunlocks, hsaved | hsaved⟩
    · exact .inl (congrArg Records.current hsame)
    · rw [hsaved, Device.Opening.saved]
      rcases hunlocks.opensWith.usesUp_cases with ⟨hnone, -⟩ | ⟨own, name, env, huses, hbundle⟩
      · rw [hnone]
        exact .inl rfl
      · rw [hbundle]
        exact .inr (.inr ⟨own, name, _, env, huses.current, huses.held, rfl⟩)
    · rw [hsaved]
      exact .inl rfl
  | _ => exact absurd trivial hquiet

/-- What is known of a peer's bundle is what was known before, or what was learned. -/
theorem bundle_step (S : Suite) (peer other : DeviceId) (x : Lifetime σ) (e : Event) :
    (x.step S peer e).records.bundle other = x.records.bundle other ∨
    ∃ p bundle, e = .learnBundle p ∧ p.device = other ∧ Bundle.ofPublished p = .ok bundle ∧
      (x.step S peer e).records.bundle other = some bundle := by
  cases e with
  | encrypt recipients plaintext =>
    exact .inl (congrFun (bundles_encrypt S peer x recipients plaintext).1 other)
  | decrypt e =>
    left
    rcases records_decrypt S peer x e with
      hsame | ⟨d, entry, opening, now, bodyKey, after, -, -, hsaved | hsaved⟩
    · rw [hsame]
    · rw [hsaved, Device.Opening.saved_bundle]
    · rw [hsaved]
      rfl
  | start config env =>
    left
    rw [records_start]
    rcases Device.start_cases S config ({ x.state with env } : Device.State σ) with
      hsame | ⟨-, bundle, hrecords⟩
    · rw [hsame]
      rfl
    · rw [hrecords]
      rfl
  | learnBundle p =>
    -- the one event that writes a bundle of others
    refine records_does (P := fun r => r.bundle other = x.records.bundle other ∨
      ∃ p' bundle, Event.learnBundle p = .learnBundle p' ∧ p'.device = other ∧
        Bundle.ofPublished p' = .ok bundle ∧ r.bundle other = some bundle) (.inl rfl) fun d => ?_
    rcases Device.learnBundle_cases d p x.state with hsame | ⟨bundle, hbundle, hrecords⟩
    · left
      rw [hsame]
      rfl
    · rw [hrecords]
      by_cases hdevice : p.device = other
      · subst hdevice
        exact .inr ⟨p, bundle, rfl, rfl, hbundle, Function.update_self _ _ _⟩
      · exact .inl (Function.update_of_ne (Ne.symm hdevice) _ _)
  | learnDevices list =>
    left
    exact records_does (P := (·.bundle other = x.records.bundle other)) rfl fun d =>
      congrFun (Device.learnDevices_bundle d list x.state) other
  | publish =>
    left
    exact records_does (P := (·.bundle other = x.records.bundle other)) rfl fun _ =>
      congrArg (Records.bundle · other) (Device.takeUnpublished_sameRecords x.state)
  | wait seconds => exact .inl rfl

/-! ## Whose device it is -/

/-- The device is the one whose bundle this is: it has the bundle, or one that has followed it, and it
goes by the bundle's identifier. -/
structure Owned (own : Bundle) (x : Lifetime σ) : Prop where
  current : ∃ b, x.records.current = some b ∧ b.device = own.device ∧ b.identity = own.identity
  device : ∀ d, x.device = some d → d.id = own.device

/-- A device that has a bundle goes by its identifier. -/
theorem start_id {config : Config} {s s' : Device.State σ} {d : Device} {b : Bundle}
    (hcurrent : s.records.current = some b) (h : Device.start S config s = (.ok d, s')) :
    d.id = b.device := by
  obtain ⟨current, s₁, hask, h⟩ := Device.bind_run_ok h
  obtain ⟨hanswer, -⟩ := Device.query_ok Device.isQuery_current hask
  obtain rfl : current = some b := hanswer.trans hcurrent
  obtain ⟨hd, -⟩ := Prod.mk.inj h
  rw [← Except.ok.inj hd]

/-- A device stays the one that it is, or is started. -/
theorem device_step (S : Suite) (peer : DeviceId) (x : Lifetime σ) (e : Event) :
    (x.step S peer e).device = x.device ∨
    ∃ config env d s', e = .start config env ∧ (x.step S peer e).device = some d ∧
      Device.start S config { x.state with env } = (.ok d, s') := by
  have hdoes {α : Type} (action : Device → Device.Action σ α) :
      (x.does action).device = x.device := by
    unfold Lifetime.does
    split <;> rfl
  cases e with
  | start config env =>
    rw [Lifetime.step]
    split
    next d state hstart => exact .inr ⟨config, env, d, state, rfl, rfl, hstart⟩
    next => exact .inl rfl
  | decrypt e =>
    left
    rw [Lifetime.step]
    cases hdevice : x.device with
    | none => exact hdevice
    | some d =>
      simp only
      split <;> exact hdevice
  | wait seconds => exact .inl rfl
  | _ => exact .inl (hdoes _)

/-- Whatever happens to a device, it keeps its identifier and its identity key. -/
theorem Owned.step (h : x.Owned own) (e : Event) : (x.step S peer e).Owned own := by
  obtain ⟨b, hb, hdevice, hidentity⟩ := h.current
  refine ⟨?_, fun d hd => ?_⟩
  · rcases current_step S peer x e with hsame | ⟨hnone, -⟩ | ⟨b', name, target, env, hb', -, hused⟩
    · exact ⟨b, hsame.trans hb, hdevice, hidentity⟩
    · cases hnone.symm.trans hb
    · obtain rfl := Option.some.inj (hb.symm.trans hb')
      obtain ⟨hdevice', hidentity'⟩ := Bundle.replenish_erase_frame S b name target env
      exact ⟨_, hused, hdevice'.trans hdevice, hidentity'.trans hidentity⟩
  · rcases device_step S peer x e with hsame | ⟨config, env, d', s', -, hd', hstart⟩
    · exact h.device d (hsame.symm.trans hd)
    · obtain rfl := Option.some.inj (hd'.symm.trans hd)
      exact (start_id (s := { x.state with env }) hb hstart).trans hdevice

/-! ## One-time keys -/

theorem renews_step (S : Suite) (peer : DeviceId) (x : Lifetime σ) (e : Event) :
    Renews x.records.current (x.step S peer e).records.current := by
  rcases current_step S peer x e with
    hsame | ⟨hnone, count, env, hfirst⟩ | ⟨own, name, target, env, hown, hheld, hused⟩
  · rw [hsame]
    exact .refl _
  · rw [hnone, hfirst]
    exact .of_none _
  · rw [hown, hused]
    exact (Renews.of_used hheld target env).1

/-- What a bundle gets is noted. -/
theorem oneTimeKeys_step (S : Suite) (peer : DeviceId) (x : Lifetime σ) (e : Event) :
    (x.step S peer e).oneTimeKeys = (x.withState (x.step S peer e).state).oneTimeKeys := by
  have hnothing : x.oneTimeKeys = (x.withState x.state).oneTimeKeys := by
    rw [Lifetime.withState, gained, if_pos rfl, List.append_nil]
  have hdoes {α : Type} (action : Device → Device.Action σ α) :
      (x.does action).oneTimeKeys = (x.withState (x.does action).state).oneTimeKeys := by
    unfold Lifetime.does
    split
    next => exact hnothing
    next => rfl
  cases e with
  | start config env =>
    rw [Lifetime.step]
    split <;> rfl
  | decrypt e =>
    rw [Lifetime.step]
    split
    next => exact hnothing
    next => split <;> rfl
  | wait seconds => rfl
  | _ => exact hdoes _

theorem run_append (S : Suite) (peer : DeviceId) (x : Lifetime σ) (first rest : List Event) :
    x.run S peer (first ++ rest) = (x.run S peer first).run S peer rest := List.foldl_append

theorem run_take_succ (S : Suite) (peer : DeviceId) (x : Lifetime σ) {events : List Event}
    {n : Nat} (h : events[n]? = some e) :
    x.run S peer (events.take (n + 1)) = (x.run S peer (events.take n)).step S peer e := by
  rw [List.take_add_one, h, run_append]
  rfl

/-- One-time keys stay noted in a run. -/
theorem oneTimeKeys_prefix_run (S : Suite) (peer : DeviceId) (x : Lifetime σ)
    (events : List Event) : x.oneTimeKeys <+: (x.run S peer events).oneTimeKeys := by
  induction events generalizing x with
  | nil => exact List.prefix_rfl
  | cons e events ih => exact (oneTimeKeys_prefix_step S peer x e).trans (ih _)

/-- All one-time keys that are held stay noted. -/
theorem Notes.step (h : x.Notes) (e : Event) : (x.step S peer e).Notes := by
  have hnotes := h.withState (renews_step S peer x e)
  rw [Notes, ← oneTimeKeys_step] at hnotes
  exact hnotes

/-- A one-time key that is used up does not come back, if no key is generated twice. -/
theorem UsedUp.step {oneTime : Bytes} (h : x.UsedUp oneTime)
    (hdistinct : (x.step S peer e).oneTimeKeys.Nodup) : (x.step S peer e).UsedUp oneTime := by
  rw [oneTimeKeys_step] at hdistinct
  have hused := h.withState (renews_step S peer x e) hdistinct
  rw [UsedUp, ← oneTimeKeys_step] at hused
  exact hused

/-- The one-time key that an entry names is used up when the bundle is replaced. -/
theorem Notes.usedUp_step {entry : Wire.Entry} {name : Bytes} {target : Nat} {env : Environment}
    (h : x.Notes) (huses : Device.UsesUp x.records entry own name)
    (hcurrent : (x.step S peer e).records.current =
      some ((own.erase name).replenish S target env).2.1)
    (hdistinct : (x.step S peer e).oneTimeKeys.Nodup) : (x.step S peer e).UsedUp name := by
  rw [oneTimeKeys_step] at hdistinct
  have hused := h.usedUp_of_usesUp huses hcurrent hdistinct
  rw [UsedUp, ← oneTimeKeys_step] at hused
  exact hused

/-- A one-time key that is used up is not found in our bundle. -/
theorem UsedUp.find?_eq_none {name : Bytes} (h : x.UsedUp name)
    (hcurrent : x.records.current = some own) : own.find? name = none := by
  obtain ⟨key, -, rfl, hgone⟩ := h
  have hstored : x.state.records.current = some own := hcurrent
  rw [hstored, mem_keysHeld] at hgone
  exact Option.not_isSome_iff_eq_none.mp hgone

/-! ## What was decrypted -/

/-- Only what the other device sends adds to what was decrypted of it. -/
theorem decrypted_step (he : ∀ envelope, e = .decrypt envelope → envelope.sender ≠ peer) :
    (x.step S peer e).decrypted = x.decrypted := by
  have hdoes {α : Type} (action : Device → Device.Action σ α) :
      (x.does action).decrypted = x.decrypted := by
    unfold Lifetime.does
    split <;> rfl
  cases e with
  | start config env =>
    rw [Lifetime.step]
    split <;> rfl
  | decrypt e =>
    rw [Lifetime.step]
    split
    next => rfl
    next d _ =>
      have hbrought : brought peer d e = [] := if_neg (he e rfl)
      split
      next => rw [hbrought, List.append_nil]
      next => rfl
  | wait seconds => rfl
  | _ => exact hdoes _

/-- What a device that is started leaves of a life when it decrypts an envelope. -/
theorem step_decrypt (peer : DeviceId) {d : Device} {e : Wire.Envelope} {plaintext : Bytes}
    {s : Device.State σ} (hdevice : x.device = some d)
    (hdecrypt : d.decrypt S e x.state = (.ok plaintext, s)) :
    (x.step S peer (.decrypt e)).state = s ∧
      (x.step S peer (.decrypt e)).decrypted = x.decrypted ++ brought peer d e := by
  constructor
  · simp only [Lifetime.step, hdevice, hdecrypt]
    rfl
  · simp only [Lifetime.step, hdevice, hdecrypt]

/-- What a device that is started leaves of a life when it refuses an envelope. -/
theorem step_refused (peer : DeviceId) {d : Device} {e : Wire.Envelope} {cause : DeviceError}
    {s : Device.State σ} (hdevice : x.device = some d)
    (hdecrypt : d.decrypt S e x.state = (.error cause, s)) :
    (x.step S peer (.decrypt e)).state = s ∧
      (x.step S peer (.decrypt e)).decrypted = x.decrypted := by
  simp only [Lifetime.step, hdevice, hdecrypt]
  exact ⟨rfl, rfl⟩

/-! ## What every call does -/

/-- Whatever holds of every call, and of noting that the bundle is to be published, holds of every
event, if it chains and time and randomness are nothing to it. -/
theorem step_within {R : Device.State σ → Device.State σ → Prop} (hR : Device.Chains R)
    (hask : ∀ {α : Type} (request : Store.Request α), Device.Within R (Device.ask request))
    (hnote : ∀ unpublished, Device.Within R (Device.setUnpublished unpublished)) (S : Suite)
    (peer : DeviceId) (x : Lifetime σ) (e : Event) : R x.state (x.step S peer e).state := by
  have hdoes {α : Type} {action : Device → Device.Action σ α}
      (haction : ∀ d, Device.Within R (action d)) : R x.state (x.does action).state := by
    unfold Lifetime.does
    split
    next => exact hR.env x.state x.state.env
    next d _ => exact haction d x.state
  cases e with
  | start config env =>
    have hstart := hR.trans (hR.env x.state env)
      (Device.start_within hR hask hnote S config { x.state with env })
    rw [Lifetime.step]
    split
    next heq => rw [heq] at hstart; exact hstart
    next heq => rw [heq] at hstart; exact hstart
  | encrypt recipients plaintext =>
    exact hdoes fun d => Device.encrypt_within hR hask S d recipients plaintext
  | decrypt e =>
    rw [Lifetime.step]
    split
    next => exact hR.env x.state x.state.env
    next d _ =>
      have hdecrypt := Device.decrypt_within hR hask hnote S d e x.state
      split
      next heq => rw [heq] at hdecrypt; exact hdecrypt
      next heq => rw [heq] at hdecrypt; exact hdecrypt
  | learnBundle p => exact hdoes fun d => Device.learnBundle_within hR (fun _ _ => hask _) d p
  | learnDevices list =>
    exact hdoes fun d => Device.learnDevices_within hR (fun _ _ => hask _) d list
  | publish => exact hdoes fun _ => Device.takeUnpublished_within hR (hask _) hnote
  | wait seconds => exact hR.env x.state _

/-- A store that refuses nothing goes on refusing nothing. -/
theorem healthy_step (h : x.state.Healthy) (e : Event) : (x.step S peer e).state.Healthy :=
  step_within Device.staysHealthy_chains Device.ask_staysHealthy (fun _ _ h => h) S peer x e h

end EndToEnd.Lifetime

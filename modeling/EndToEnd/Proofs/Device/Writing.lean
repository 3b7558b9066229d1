import EndToEnd.Device.Encryption
import EndToEnd.Proofs.Device.Running
import EndToEnd.Proofs.Session.Sealing

/-!
# What encrypting for one device does

An envelope for a peer with one device has one entry or none. The entry is sealed in the session with
that device, the stored one or one that a handshake with it starts, and the session after it is all
that is saved. A refusal saves nothing.

Main statements:

- `initiate_ok`: the session that a handshake starts;
- `encrypt_cases`: what an envelope for one device is made of;
- `encrypt_onlySends`: encrypting, for any recipients, changes nothing that receiving needs.
-/

namespace EndToEnd.Device

variable {σ : Type} [Store σ] {S : Suite} {d : Device} {peer : DeviceId} {name : String}
  {s s' : State σ}

/-- A session that a handshake with a device starts, from what is stored. -/
def Initiates (S : Suite) (r : Records) (peer : DeviceId) (session : Session) : Prop :=
  ∃ bundle k own ephemeral secret ratchet, r.bundle peer = some bundle ∧ k ∈ bundle.oneTimeKeys ∧
    r.current = some own ∧
    Handshake.initiatorSecret S own.identity ephemeral bundle.identity.publicKey.bytes
      k.pair.publicKey.bytes = .ok secret ∧
    session = .initiator S secret own.identity ephemeral k.pair.publicKey ratchet

/-- The session with a device: the stored one, or one that a handshake starts. -/
def SessionFrom (S : Suite) (r : Records) (peer : DeviceId) (session : Session) : Prop :=
  r.session peer = some session ∨ r.session peer = none ∧ Initiates S r peer session

/-- A one-time key that is drawn is one of the bundle's. -/
theorem mem_of_drawOneTimeKey {b : Bundle} {env env' : Environment} {pair : KeyPair}
    (h : b.drawOneTimeKey env = (some pair, env')) : ∃ k ∈ b.oneTimeKeys, k.pair = pair := by
  unfold Bundle.drawOneTimeKey at h
  split at h
  next => exact nomatch (Prod.mk.inj h).1
  next =>
    obtain ⟨hpair, -⟩ := Prod.mk.inj h
    obtain ⟨k, hk, rfl⟩ := Option.map_eq_some_iff.mp hpair
    exact ⟨k, List.mem_of_getElem? hk, rfl⟩

section Within

variable {R : State σ → State σ → Prop} (hR : Chains R)
  (hquery : ∀ {α : Type} {request : Store.Request α}, IsQuery request → Within R (ask request))
include hR hquery

/-- Starting a session only reads and draws, so it leads where its queries do. -/
theorem initiate_within (S : Suite) (peer : DeviceId) : Within R (initiate S peer) := by
  refine Within.bind hR (hquery (isQuery_bundle peer)) fun bundle => ?_
  cases bundle with
  | none => exact .pure hR _
  | some bundle =>
    refine Within.bind hR (.draw hR _) fun oneTime => ?_
    cases oneTime with
    | none => exact .pure hR _
    | some oneTime =>
      refine Within.bind hR (.currentBundle hR (hquery isQuery_current)) fun own => ?_
      exact .bind hR (.draw hR _) fun ephemeral => .bind hR (.attempt hR _ _) fun secret =>
        .bind hR (.draw hR _) fun session => .pure hR _

theorem sessionWith_within (S : Suite) (peer : DeviceId) : Within R (sessionWith S peer) := by
  refine Within.bind hR (hquery (isQuery_session peer)) fun stored => ?_
  cases stored with
  | some session => exact .pure hR _
  | none => exact initiate_within hR hquery S peer

/-- Whatever holds of queries and of making an entry holds of encrypting. -/
theorem encrypt_within_of_entryFor {d : Device}
    (hentry : ∀ bodyKey peer, Within R (d.entryFor S bodyKey peer)) (recipients : List String)
    (plaintext : Bytes) : Within R (d.encrypt S recipients plaintext) := by
  refine Within.bind hR (.draw hR _) fun bodyKey => .bind hR (.draw hR _) fun iv =>
    .bind hR (.mapM hR (fun name => ?_) recipients) fun entries => .pure hR _
  exact .bind hR (hquery (isQuery_devices name)) fun devices =>
    .bind hR (.mapM hR (hentry bodyKey) devices) fun entries => .pure hR _

/-- Whatever holds of queries and of replacing a session holds of encrypting. -/
theorem encrypt_within_of_saveSession
    (hsession : ∀ peer session, Within R (ask (.saveSession peer session))) (S : Suite)
    (d : Device) (recipients : List String) (plaintext : Bytes) :
    Within R (d.encrypt S recipients plaintext) := by
  refine encrypt_within_of_entryFor hR hquery (fun bodyKey peer => ?_) recipients plaintext
  unfold entryFor
  split
  next => exact .pure hR _
  next =>
    refine Within.bind hR (sessionWith_within hR hquery S peer) fun session => ?_
    cases session with
    | none => exact .pure hR _
    | some session =>
      exact .bind hR (.tryDraw hR _ _) fun sealed => .bind hR (hsession _ _) fun _ => .pure hR _

end Within

/-- Whatever holds of every call holds of encrypting. -/
theorem encrypt_within {R : State σ → State σ → Prop} (hR : Chains R)
    (hask : ∀ {α : Type} (request : Store.Request α), Within R (ask request)) (S : Suite)
    (d : Device) (recipients : List String) (plaintext : Bytes) :
    Within R (d.encrypt S recipients plaintext) :=
  encrypt_within_of_saveSession hR (fun _ => hask _) (fun _ _ => hask _) S d recipients plaintext

variable [LawfulStore σ]

/-- A session that is started is started from what is stored. -/
theorem initiate_ok {session : Session} (h : initiate S peer s = (.ok (some session), s')) :
    Initiates S s.records peer session := by
  obtain ⟨bundle, s₁, hbundle, h⟩ := bind_run_ok h
  obtain ⟨rfl, hkeeps⟩ := query_ok (isQuery_bundle peer) hbundle
  have hanswer : (s.records.answer (.bundle peer)).1 = s.records.bundle peer := rfl
  rw [hanswer] at h
  cases hstored : s.records.bundle peer with
  | none =>
    rw [hstored] at h
    exact nomatch Except.ok.inj (Prod.mk.inj h).1
  | some bundle =>
    rw [hstored] at h
    obtain ⟨oneTime, s₂, honeTime, h⟩ := bind_run_ok h
    obtain ⟨hdrawn, rfl⟩ := Prod.mk.inj honeTime
    cases oneTime with
    | none => exact nomatch Except.ok.inj (Prod.mk.inj h).1
    | some oneTime =>
      obtain ⟨k, hk, rfl⟩ := mem_of_drawOneTimeKey (Prod.ext (Except.ok.inj hdrawn) rfl)
      obtain ⟨own, s₃, hown, h⟩ := bind_run_ok h
      obtain ⟨hcurrent, -⟩ := currentBundle_ok hown
      obtain ⟨ephemeral, s₄, -, h⟩ := bind_run_ok h
      obtain ⟨secret, hsecret, h⟩ := attempt_bind_ok h
      obtain ⟨started, s₅, hstarted, h⟩ := bind_run_ok h
      obtain ⟨hstarted, -⟩ := Prod.mk.inj hstarted
      obtain rfl := Option.some.inj (Except.ok.inj (Prod.mk.inj h).1)
      exact ⟨bundle, k, own, ephemeral, secret, (s₄.env.drawKeyPair S).1, hstored, hk,
        hkeeps.1 ▸ hcurrent, hsecret, (Except.ok.inj hstarted).symm⟩

/-- A session that is found or started is one or the other. -/
theorem sessionWith_ok {session : Session}
    (h : sessionWith S peer s = (.ok (some session), s')) :
    SessionFrom S s.records peer session := by
  obtain ⟨stored, s₁, hstored, h⟩ := bind_run_ok h
  obtain ⟨rfl, hkeeps⟩ := query_ok (isQuery_session peer) hstored
  have hanswer : (s.records.answer (.session peer)).1 = s.records.session peer := rfl
  rw [hanswer] at h
  cases hsession : s.records.session peer with
  | some stored =>
    rw [hsession] at h
    obtain rfl := Option.some.inj (Except.ok.inj (Prod.mk.inj h).1)
    exact .inl hsession
  | none =>
    rw [hsession] at h
    exact .inr ⟨hsession, hkeeps.1 ▸ initiate_ok h⟩

/-- What the entry for a device is made of: the session with it, sealing the body key, and that
session saved. -/
structure Seals (S : Suite) (peer : DeviceId) (bodyKey : Key) (s : State σ) (entry : Wire.Entry)
    (s' : State σ) (session : Session) (env : Environment) (after : Session) : Prop where
  source : SessionFrom S s.records peer session
  sealed : (session.sealForPeer S bodyKey.bytes env).1 = .ok (entry.key, after)
  recipient : entry.recipient = peer
  isHandshake : entry.isHandshake = !session.isEstablished
  records : s'.records = s.records.withSession peer after
  unpublished : s'.unpublished = s.unpublished

/-- There is no entry for the device, or one is sealed, or nothing is saved. -/
theorem entryFor_cases (S : Suite) (d : Device) (bodyKey : Key) (peer : DeviceId) (s : State σ) :
    (∃ cause s', d.entryFor S bodyKey peer s = (.error cause, s') ∧ Keeps s s') ∨
    (∃ s', d.entryFor S bodyKey peer s = (.ok none, s') ∧ Keeps s s') ∨
    ∃ entry s' session env after, d.entryFor S bodyKey peer s = (.ok (some entry), s') ∧
      Seals S peer bodyKey s entry s' session env after := by
  unfold entryFor
  split
  next => exact .inr (.inl ⟨s, rfl, .refl s⟩)
  next =>
    have hkeeps := sessionWith_within keeps_chains (σ := σ) query_keeps S peer s
    cases hwith : sessionWith S peer s with
    | mk result s₁ =>
      replace hkeeps : Keeps s s₁ := by rw [hwith] at hkeeps; exact hkeeps
      cases result with
      | error cause => exact .inl ⟨cause, s₁, run_bind_error hwith, hkeeps⟩
      | ok found =>
        simp only [run_bind_ok hwith]
        cases found with
        | none => exact .inr (.inl ⟨s₁, rfl, hkeeps⟩)
        | some session =>
          have hsession := sessionWith_ok hwith
          have hdraw := run_tryDraw .session (session.sealForPeer S bodyKey.bytes) s₁
          generalize hs₂ : ({ s₁ with env := _ } : State σ) = s₂ at hdraw
          replace hkeeps : Keeps s s₂ := hkeeps.trans (hs₂ ▸ ⟨rfl, rfl⟩)
          cases hsealed : (session.sealForPeer S bodyKey.bytes s₁.env).1 with
          | error cause =>
            rw [hsealed] at hdraw
            exact .inl ⟨.session cause, s₂, run_bind_error hdraw, hkeeps⟩
          | ok sealed =>
            obtain ⟨key, after⟩ := sealed
            rw [hsealed] at hdraw
            simp only [run_bind_ok hdraw]
            rcases ask_cases (.saveSession peer after) s₂ with
              ⟨s₃, hok, hrecords, -, hflag, -⟩ | ⟨-, cause, s₃, herror, hrecords, -, hflag⟩
            · refine .inr (.inr ⟨_, s₃, session, s₁.env, after, run_bind_ok hok, hsession, hsealed,
                rfl, rfl, ?_, hflag.trans hkeeps.2⟩)
              rw [hrecords, ← hkeeps.1]
              rfl
            · exact .inl ⟨_, s₃, run_bind_error herror, hkeeps.trans ⟨hrecords, hflag⟩⟩

/-- The entries for a peer with one device, or with none. -/
theorem entriesFor_cases (S : Suite) (d : Device) (bodyKey : Key) {s : State σ}
    (hdevices : s.records.devices name = [] ∨ s.records.devices name = [peer]) :
    (∃ cause s', d.entriesFor S bodyKey name s = (.error cause, s') ∧ Keeps s s') ∨
    (∃ s', d.entriesFor S bodyKey name s = (.ok [], s') ∧ Keeps s s') ∨
    ∃ entry s' session env after, d.entriesFor S bodyKey name s = (.ok [entry], s') ∧
      Seals S peer bodyKey s entry s' session env after := by
  unfold entriesFor
  cases hask : (ask (.devices name) : Action σ _) s with
  | mk result s₁ =>
    cases result with
    | error cause => exact .inl ⟨cause, s₁, run_bind_error hask, ask_error hask⟩
    | ok devices =>
      obtain ⟨hanswer, hkeeps⟩ := query_ok (isQuery_devices name) hask
      rw [run_bind_ok hask]
      rcases hdevices with hdevices | hdevices
      · rw [hanswer.trans hdevices, List.mapM_nil]
        exact .inr (.inl ⟨s₁, rfl, hkeeps⟩)
      · rw [hanswer.trans hdevices, List.mapM_cons, List.mapM_nil]
        simp only [pure_bind, bind_assoc]
        rcases entryFor_cases S d bodyKey peer s₁ with
          ⟨cause, s₂, h, hkeeps'⟩ | ⟨s₂, h, hkeeps'⟩ | ⟨entry, s₂, session, env, after, h, hseals⟩
        · exact .inl ⟨cause, s₂, run_bind_error h, hkeeps.trans hkeeps'⟩
        · exact .inr (.inl ⟨s₂, run_bind_ok h, hkeeps.trans hkeeps'⟩)
        · refine .inr (.inr ⟨entry, s₂, session, env, after, run_bind_ok h, ?_⟩)
          exact ⟨hkeeps.1 ▸ hseals.source, hseals.sealed, hseals.recipient, hseals.isHandshake,
            hkeeps.1 ▸ hseals.records, hseals.unpublished.trans hkeeps.2⟩

/-- An envelope for a peer with at most one device has one entry at most, and all that is saved is
the session that sealed it. -/
theorem encrypt_cases (S : Suite) (d : Device) (plaintext : Bytes) {s : State σ}
    (hdevices : s.records.devices name = [] ∨ s.records.devices name = [peer]) :
    (∃ cause s', d.encrypt S [name] plaintext s = (.error cause, s') ∧ Keeps s s') ∨
    (∃ e s', d.encrypt S [name] plaintext s = (.ok e, s') ∧ e.entries = [] ∧ Keeps s s') ∨
    ∃ iv entry s' session env after,
      d.encrypt S [name] plaintext s =
        (.ok ⟨d.id, iv, [entry], S.encryptWith (s.env.draw 32).1 iv plaintext⟩, s') ∧
      Seals S peer (s.env.draw 32).1 s entry s' session env after := by
  unfold encrypt
  rw [run_bind_ok (run_draw _ _), run_bind_ok (run_draw _ _), List.mapM_cons, List.mapM_nil]
  simp only [pure_bind, bind_assoc]
  generalize (s.env.draw 32).1 = bodyKey
  generalize (Environment.draw 16 _).1 = iv
  generalize hs₁ : ({ s with env := _ } : State σ) = s₁
  have hkeeps : Keeps s s₁ := hs₁ ▸ ⟨rfl, rfl⟩
  rcases entriesFor_cases S d bodyKey (s := s₁) (hkeeps.1 ▸ hdevices) with
    ⟨cause, s₂, h, hkeeps'⟩ | ⟨s₂, h, hkeeps'⟩ | ⟨entry, s₂, session, env, after, h, hseals⟩
  · exact .inl ⟨cause, s₂, run_bind_error h, hkeeps.trans hkeeps'⟩
  · exact .inr (.inl ⟨_, s₂, run_bind_ok h, rfl, hkeeps.trans hkeeps'⟩)
  · refine .inr (.inr ⟨iv, entry, s₂, session, env, after, run_bind_ok h, ?_⟩)
    exact ⟨hkeeps.1 ▸ hseals.source, hseals.sealed, hseals.recipient, hseals.isHandshake,
      hkeeps.1 ▸ hseals.records, hseals.unpublished.trans hkeeps.2⟩

/-! ## What encrypting leaves alone -/

/-- A session has received nothing since: a new one has received nothing at all. -/
def ReceivesNothing : (before after : Option Session) → Prop
  | none, none => True
  | none, some after => after.skipped = []
  | some before, some after =>
    after.receiveIndex = before.receiveIndex ∧ after.skipped = before.skipped
  | some _, none => False

theorem ReceivesNothing.refl (session : Option Session) : ReceivesNothing session session := by
  cases session with
  | none => trivial
  | some session => exact ⟨rfl, rfl⟩

theorem ReceivesNothing.trans {first second third : Option Session}
    (h : ReceivesNothing first second) (h' : ReceivesNothing second third) :
    ReceivesNothing first third := by
  cases first <;> cases second <;> cases third
  case none.none.none => trivial
  case none.none.some => exact h'
  case none.some.some => exact h'.2.trans h
  case some.some.some => exact ⟨h'.1.trans h.1, h'.2.trans h.2⟩
  all_goals first | exact h.elim | exact h'.elim

/-- Our bundle is as it was, and no session has received anything. -/
def OnlySends (s s' : State σ) : Prop :=
  s'.records.current = s.records.current ∧
    ∀ peer, ReceivesNothing (s.records.session peer) (s'.records.session peer)

theorem OnlySends.of_records (h : s'.records = s.records) : OnlySends s s' := by
  rw [OnlySends, h]
  exact ⟨rfl, fun peer => .refl _⟩

theorem onlySends_chains : Chains (OnlySends (σ := σ)) :=
  ⟨fun h h' => ⟨h'.1.trans h.1, fun peer => (h.2 peer).trans (h'.2 peer)⟩,
    fun _ _ => .of_records rfl⟩

/-- Sealing in the session with a device receives nothing. -/
theorem Seals.onlySends {bodyKey : Key} {entry : Wire.Entry} {session after : Session}
    {env : Environment} (h : Seals S peer bodyKey s entry s' session env after) :
    OnlySends s s' := by
  rw [OnlySends, h.records]
  refine ⟨rfl, fun other => ?_⟩
  have hframe := Session.sealForPeer_frame h.sealed
  by_cases hother : other = peer
  · subst hother
    rw [Records.session_withSession_self]
    rcases h.source with hstored |
      ⟨hnone, bundle, k, own, ephemeral, secret, ratchet, -, -, -, -, rfl⟩
    · rw [hstored, hframe]
      exact ⟨rfl, rfl⟩
    · rw [hnone, hframe]
      rfl
  · rw [Records.session_withSession_of_ne _ _ hother]
    exact .refl _

/-- Encrypting, for any recipients, receives nothing and leaves our bundle as it is. -/
theorem encrypt_onlySends (S : Suite) (d : Device) (recipients : List String) (plaintext : Bytes) :
    Within (OnlySends (σ := σ)) (d.encrypt S recipients plaintext) := by
  refine encrypt_within_of_entryFor onlySends_chains
    (fun hquery s => .of_records (query_keeps hquery s).1) (fun bodyKey peer s => ?_) recipients
    plaintext
  rcases entryFor_cases S d bodyKey peer s with
    ⟨cause, s', h, hkeeps⟩ | ⟨s', h, hkeeps⟩ | ⟨entry, s', session, env, after, h, hseals⟩
  · rw [h]
    exact .of_records hkeeps.1
  · rw [h]
    exact .of_records hkeeps.1
  · rw [h]
    exact hseals.onlySends

end EndToEnd.Device

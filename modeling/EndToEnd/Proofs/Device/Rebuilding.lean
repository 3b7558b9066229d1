import EndToEnd.Proofs.Device.Events

/-!
# Sessions that are built again

A handshake message that names a one-time key which our bundle holds starts a session, in place of
the one there is. If the session is saved and the store refuses to replace the bundle, the key is
still held, and another handshake message that names it starts a session again: at the beginning of
the same receiving chain, and with no message key used. What was read on that chain in between can
then be read again. Nothing else can, whatever envelopes come and whichever calls of the store fail.

Main statements:

- `Episodes.Sound.start`, `Episodes.Sound.reading`: starting a session, and reading a message in it,
  keep the account of what each session has received;
- `Chronicle.Sound.step`, `Chronicle.Sound.run`: the account is right after every run;
- `Chronicle.read_again`: which messages are decrypted again;
- `Chronicle.decrypted_again_after_rebuild`: one that is.
-/

namespace EndToEnd

open Session (IsKeyOf)

/-- What was received in one session with the other device, until another one was started in its
place. -/
structure Episode where
  reception : Reception
  /-- The messages whose envelopes were decrypted, in order. -/
  returned : List Bytes
  /-- The one-time key that the session was started with, if any, was taken from our bundle. -/
  settled : Bool

namespace Episode

/-- An episode before anything was received. -/
def start (name : Bytes) (settled : Bool) : Episode := ⟨Reception.empty.answering name, [], settled⟩

/-- The episode after a message was read, and returned unless the envelope was refused. -/
def reading (S : Suite) (p : Episode) (session : Session) (payload : Bytes) (after : Session)
    (returned : Bool) : Episode :=
  { p with
    reception := p.reception.reading S session payload after
    returned := p.returned ++ if returned then [payload] else [] }

/-- The session was started with the one-time key of ours of this name. -/
def StartedWith (p : Episode) (name : Bytes) : Prop := p.reception.chain.oneTime = some name

/-- The message was read in both episodes, with the key of the same position of their first chains.
They were started with the same one-time key, which the earlier one has left in our bundle. -/
structure ReadAgain (S : Suite) (message : Bytes) (p q : Episode) : Prop where
  oneTime : ∃ name, p.StartedWith name ∧ q.StartedWith name
  unsettled : p.settled = false
  position : ∃ a ∈ p.reception.positions, ∃ b ∈ q.reception.positions,
    IsKeyOf S a.key message ∧ IsKeyOf S b.key message ∧ a.place = b.place ∧ a.chain.steps = 0

/-- What an episode has received is accounted for, and its one-time key is used up if it was taken
from our bundle. -/
structure Sound (S : Suite) (usedUp : Bytes → Prop) (p : Episode) : Prop where
  spends : ∃ used, p.reception.Spends S used []
  returned : p.returned.Sublist p.reception.opened
  chain : ∀ a ∈ p.reception.positions, a.chain.oneTime = p.reception.chain.oneTime
  settled : p.settled = true → ∀ name, p.StartedWith name → usedUp name

/-- The later session was started with a one-time key, not one that the earlier one has taken from
our bundle. -/
def GivesWay (p q : Episode) : Prop :=
  ∃ name, q.StartedWith name ∧ (p.StartedWith name → p.settled = false)

variable {S : Suite} {config : Config} {now : UInt64} {usedUp usedUp' : Bytes → Prop}
  {p q : Episode} {session after : Session} {payload plaintext : Bytes} {isHandshake : Bool}
  {name : Bytes}

theorem Sound.mono (h : p.Sound S usedUp) (hused : ∀ name, usedUp name → usedUp' name) :
    p.Sound S usedUp' :=
  ⟨h.spends, h.returned, h.chain, fun hsettled name hstarted =>
    hused name (h.settled hsettled name hstarted)⟩

theorem sound_start {settled : Bool} (hsettled : settled = true → usedUp name) :
    (start name settled).Sound S usedUp := by
  refine ⟨⟨[], nofun, .nil, .nil⟩, .refl _, nofun, fun h other hother => ?_⟩
  obtain rfl : name = other := Option.some.inj hother
  exact hsettled h

/-- Reading a message stays on a chain of the same one-time key. -/
theorem startedWith_reading {returned : Bool} :
    (p.reading S session payload after returned).StartedWith name ↔ p.StartedWith name := by
  show (p.reception.chainAfter session after).oneTime = some name ↔ _
  unfold Reception.chainAfter
  split <;> rfl

/-- Reading a message keeps the account of an episode. -/
theorem Sound.reading (h : p.Sound S usedUp) (htracks : p.reception.Tracks S session)
    (hopen : session.openMessage S config now payload isHandshake = .ok (plaintext, after))
    (returned : Bool) : (p.reading S session payload after returned).Sound S usedUp := by
  have hchain : (p.reception.chainAfter session after).oneTime = p.reception.chain.oneTime := by
    unfold Reception.chainAfter
    split <;> rfl
  refine ⟨?_, ?_, fun a ha => ?_, fun hsettled name hstarted => ?_⟩
  · have hfollows : (p.reception.reading S session payload after).Follows S (some after) :=
      htracks.reading hopen
    exact hfollows.exists_spends
  · refine h.returned.append ?_
    cases returned
    · exact List.nil_sublist _
    · exact .refl _
  · rcases List.mem_append.mp ha with ha | ha
    · exact (h.chain a ha).trans hchain.symm
    · obtain ⟨passed, -, rfl⟩ := List.mem_map.mp ha
      rfl
  · exact h.settled hsettled name (startedWith_reading.mp hstarted)

end Episode

/-- All episodes with one other device. -/
structure Episodes where
  /-- Those that are over, the earliest first. -/
  past : List Episode
  present : Episode

namespace Episodes

/-- The episodes, the earliest first. -/
def all (x : Episodes) : List Episode := x.past ++ [x.present]

/-- Nothing has happened. -/
def begin : Episodes := ⟨[], ⟨.empty, [], true⟩⟩

/-- The episodes when a session is started. -/
def start (x : Episodes) (name : Bytes) (settled : Bool) : Episodes :=
  ⟨x.all, .start name settled⟩

/-- The episodes after a message was read. -/
def reading (S : Suite) (x : Episodes) (session : Session) (payload : Bytes) (after : Session)
    (returned : Bool) : Episodes :=
  { x with present := x.present.reading S session payload after returned }

/-- The episodes after an entry was opened and its message was read. An envelope that was refused
then has left our bundle as it was. -/
def read (S : Suite) (x : Episodes) (entry : Wire.Entry) (opening : Device.Opening)
    (after : Session) (returned : Bool) : Episodes :=
  let y := match Lifetime.oneTimeOf entry opening with
    | none => x
    | some name => x.start name returned
  y.reading S opening.session opening.payload after returned

/-- The positions that the sessions have gone past, and the messages that were read. -/
def positions (x : Episodes) : List Position := x.all.flatMap (·.reception.positions)

/-- The episodes account for the stored session and for all that were there before it. -/
structure Sound (S : Suite) (usedUp : Bytes → Prop) (x : Episodes) (stored : Option Session) :
    Prop where
  follows : x.present.reception.Follows S stored
  each : ∀ p ∈ x.all, p.Sound S usedUp
  order : x.all.Pairwise Episode.GivesWay

variable {S : Suite} {config : Config} {now : UInt64} {usedUp usedUp' : Bytes → Prop} {x : Episodes}
  {stored stored' : Option Session} {session after : Session} {payload plaintext : Bytes}
  {isHandshake : Bool} {name : Bytes}

theorem Sound.of_receivesNothing (h : x.Sound S usedUp stored)
    (hsends : Device.ReceivesNothing stored stored')
    (hused : ∀ name, usedUp name → usedUp' name) : x.Sound S usedUp' stored' :=
  ⟨Lifetime.follows_of_receivesNothing h.follows hsends, fun p hp => (h.each p hp).mono hused,
    h.order⟩

/-- A session is started with a one-time key that is not used up. -/
theorem Sound.start {settled : Bool} (h : x.Sound S usedUp stored) (hnew : ¬ usedUp name)
    (hnone : session.skipped = []) (hused : ∀ name, usedUp name → usedUp' name)
    (hsettled : settled = true → usedUp' name) :
    (x.start name settled).Sound S usedUp' (some session) := by
  refine ⟨?_, fun p hp => ?_, ?_⟩
  · have hempty : Reception.empty.Follows S none := rfl
    exact hempty.answering Reception.not_startedWith_empty hnone
  · rcases List.mem_append.mp hp with hp | hp
    · exact (h.each p hp).mono hused
    · rw [List.mem_singleton.mp hp]
      exact Episode.sound_start hsettled
  · refine List.pairwise_append.mpr ⟨h.order, List.pairwise_singleton _ _, fun p hp q hq => ?_⟩
    rw [List.mem_singleton.mp hq]
    refine ⟨name, rfl, fun hstarted => Bool.eq_false_iff.mpr fun htaken => hnew ?_⟩
    exact (h.each p hp).settled htaken name hstarted

/-- A message is read in the session there is. -/
theorem Sound.reading (h : x.Sound S usedUp (some session))
    (hopen : session.openMessage S config now payload isHandshake = .ok (plaintext, after))
    (returned : Bool) :
    (x.reading S session payload after returned).Sound S usedUp (some after) := by
  have hpresent := h.each x.present (List.mem_append_right _ List.mem_cons_self)
  obtain ⟨hpast, -, hlast⟩ := List.pairwise_append.mp h.order
  refine ⟨Reception.Tracks.reading h.follows hopen, fun p hp => ?_, ?_⟩
  · rcases List.mem_append.mp hp with hp | hp
    · exact h.each p (List.mem_append_left _ hp)
    · rw [List.mem_singleton.mp hp]
      exact hpresent.reading h.follows hopen returned
  · refine List.pairwise_append.mpr ⟨hpast, List.pairwise_singleton _ _, fun p hp q hq => ?_⟩
    rw [List.mem_singleton.mp hq]
    obtain ⟨name, hstarted, hsettled⟩ := hlast p hp _ List.mem_cons_self
    exact ⟨name, Episode.startedWith_reading.mpr hstarted, hsettled⟩

/-- Reading a message returns it, unless the envelope is refused. -/
theorem returned_read {entry : Wire.Entry} {opening : Device.Opening} {returned : Bool} :
    (x.read S entry opening after returned).all.flatMap (·.returned) =
      x.all.flatMap (·.returned) ++ if returned then [opening.payload] else [] := by
  have hreading (y : Episodes) :
      (y.reading S opening.session opening.payload after returned).all.flatMap (·.returned) =
        y.all.flatMap (·.returned) ++ if returned then [opening.payload] else [] := by
    simp only [all, Episodes.reading, Episode.reading, List.flatMap_append, List.flatMap_singleton,
      List.append_assoc]
  rw [Episodes.read, hreading]
  split
  next => rfl
  next name _ =>
    have hstart :
        (x.start name returned).all.flatMap (·.returned) = x.all.flatMap (·.returned) := by
      rw [all, Episodes.start, List.flatMap_append]
      exact List.append_nil _
    rw [hstart]

/-- What is assumed of the episodes: the message keys at different positions differ, except that
sessions which were started with the same one-time key may have the same first chain, and no message
that was read has the authenticator of two keys. -/
structure Assumed (S : Suite) (x : Episodes) : Prop where
  keys : ∀ p ∈ x.all, p.reception.KeysDistinct
  first : x.all.Pairwise fun p q => ∀ a ∈ p.reception.positions, ∀ b ∈ q.reception.positions,
    a.key = b.key → a.place = b.place ∧ a.chain.steps = 0
  tags : ∀ p ∈ x.all, ∀ message ∈ p.reception.opened, ∀ a ∈ x.positions, ∀ b ∈ x.positions,
    IsKeyOf S a.key message → IsKeyOf S b.key message → a.key = b.key

instance : Decidable (x.Assumed S) :=
  decidable_of_iff (_ ∧ _ ∧ _)
    ⟨fun ⟨keys, first, tags⟩ => ⟨keys, first, tags⟩, fun h => ⟨h.keys, h.first, h.tags⟩⟩

theorem Assumed.mem_positions {p : Episode} {a : Position} (hp : p ∈ x.all)
    (ha : a ∈ p.reception.positions) : a ∈ x.positions :=
  List.mem_flatMap.mpr ⟨p, hp, ha⟩

/-- No message is returned twice in one session. -/
theorem Sound.nodup_returned (h : x.Sound S usedUp stored) (hassumed : x.Assumed S) {p : Episode}
    (hp : p ∈ x.all) : p.returned.Nodup := by
  have hsound := h.each p hp
  obtain ⟨used, hspends⟩ := hsound.spends
  refine (hspends.nodup_opened (hassumed.keys p hp) fun message hmessage a ha b hb => ?_).sublist
    hsound.returned
  exact hassumed.tags p hp message hmessage a (Assumed.mem_positions hp ha) b
    (Assumed.mem_positions hp hb)

/-- A message is returned again only in a session that was started again. -/
theorem Sound.readAgain (h : x.Sound S usedUp stored) (hassumed : x.Assumed S) :
    x.all.Pairwise fun p q => ∀ message ∈ p.returned, message ∈ q.returned →
      p.ReadAgain S message q := by
  refine List.Pairwise.imp_of_mem (fun hp hq hpair => ?_) (h.order.and hassumed.first)
  intro message hearlier hlater
  obtain ⟨⟨name, hstarted, hsettled⟩, hfirst⟩ := hpair
  have hsound := h.each _ hp
  have hsound' := h.each _ hq
  obtain ⟨used, hspends⟩ := hsound.spends
  obtain ⟨used', hspends'⟩ := hsound'.spends
  have hread := hsound.returned.mem hearlier
  obtain ⟨a, ha, hkey⟩ := hspends.exists_position hread
  obtain ⟨b, hb, hkey'⟩ := hspends'.exists_position (hsound'.returned.mem hlater)
  have hsame := hassumed.tags _ hp message hread a (Assumed.mem_positions hp ha) b
    (Assumed.mem_positions hq hb) hkey hkey'
  obtain ⟨hplace, hsteps⟩ := hfirst a ha b hb hsame
  -- Both positions are on the first chain of a session with the same one-time key.
  have hstarted' := calc
    _ = a.chain.oneTime := (hsound.chain a ha).symm
    _ = b.chain.oneTime := congrArg (·.1.oneTime) hplace
    _ = some name := (hsound'.chain b hb).trans hstarted
  exact ⟨⟨name, hstarted', hstarted⟩, hsettled hstarted', a, ha, b, hb, hkey, hkey', hplace, hsteps⟩

end Episodes

/-! ## Runs -/

/-- Only an envelope from another device is received from it. -/
theorem Lifetime.receivesNothing_step {σ : Type} [Store σ] [LawfulStore σ] {S : Suite}
    {peer : DeviceId} {x : Lifetime σ} {e : Lifetime.Event}
    (he : ∀ envelope, e = .decrypt envelope → envelope.sender ≠ peer) :
    Device.ReceivesNothing (x.records.session peer) ((x.step S peer e).records.session peer) := by
  by_cases hquiet : e.IsQuiet
  · rw [session_quiet hquiet]
    exact .refl _
  cases e with
  | encrypt recipients plaintext =>
    exact records_does (P := fun r => Device.ReceivesNothing _ (r.session peer)) (.refl _) fun d =>
      (Device.encrypt_onlySends S d recipients plaintext x.state).2 peer
  | decrypt e =>
    rw [session_decrypt_of_ne (he e rfl)]
    exact .refl _
  | _ => exact absurd trivial hquiet

namespace Device

variable {σ : Type} [Store σ] [LawfulStore σ] {S : Suite} {d : Device} {e : Wire.Envelope}
  {s s' : State σ} {entry : Wire.Entry} {result : Except DeviceError Bytes}

/-- An envelope that is decrypted, or that changes what is stored, has an entry that was opened. -/
theorem exists_opening_of_decrypt (h : d.decrypt S e s = (result, s'))
    (hentry : e.entryFor d.id = some entry) (hread : result.isOk = true ∨ s'.records ≠ s.records) :
    ∃ opening, (d.openEntry S e.sender entry s).1 = .ok opening ∧
      OpensWith S d s.records e.sender entry opening := by
  have hkeeps := openEntry_within keeps_chains (σ := σ) query_keeps S d e.sender entry s
  cases hopen : d.openEntry S e.sender entry s with
  | mk opened s₁ =>
    cases opened with
    | ok opening => exact ⟨opening, rfl, openEntry_ok hopen⟩
    | error cause =>
      have hrefused : d.decrypt S e s = (.error cause, s₁) := by
        unfold decrypt
        simp only [hentry]
        exact run_bind_error hopen
      obtain ⟨rfl, rfl⟩ := Prod.mk.inj (h.symm.trans hrefused)
      rw [hopen] at hkeeps
      rcases hread with hok | hchanged
      · exact absurd hok Bool.false_ne_true
      · exact absurd hkeeps.1 hchanged

end Device

/-- The life of a device, and its episodes with one other device. -/
structure Chronicle (σ : Type) where
  life : Lifetime σ
  episodes : Episodes

namespace Chronicle

variable {σ : Type} [Store σ] [LawfulStore σ]

/-- A device before anything has happened, on a store. -/
def begin (state : Device.State σ) : Chronicle σ := ⟨.begin state, .begin⟩

/-- How a device opens its entry in an envelope from the other device, and whether the envelope is
decrypted. -/
def opens? (S : Suite) (peer : DeviceId) (x : Lifetime σ) (e : Wire.Envelope) :
    Option (Wire.Entry × Device.Opening × Bool) :=
  if e.sender = peer then do
    let d ← x.device
    let entry ← e.entryFor d.id
    let opening ← (d.openEntry S peer entry x.state).1.toOption
    return (entry, opening, (d.decrypt S e x.state).1.isOk)
  else none

/-- The episodes after an envelope has come, with the life after it. An envelope that was refused
has been read if the session was replaced. -/
def noted (S : Suite) (peer : DeviceId) (x : Chronicle σ) (e : Wire.Envelope) (life : Lifetime σ) :
    Episodes :=
  match opens? S peer x.life e, life.records.session peer with
  | some (entry, opening, returned), some after =>
    if returned ∨ x.life.records.session peer ≠ some after then
      x.episodes.read S entry opening after returned
    else x.episodes
  | _, _ => x.episodes

/-- The chronicle after something has happened to the device. -/
def step (S : Suite) (peer : DeviceId) (x : Chronicle σ) (e : Lifetime.Event) : Chronicle σ :=
  let life := x.life.step S peer e
  match e with
  | .decrypt e => ⟨life, x.noted S peer e life⟩
  | _ => ⟨life, x.episodes⟩

/-- The chronicle after everything in a list has happened. -/
def run (S : Suite) (peer : DeviceId) (x : Chronicle σ) (events : List Lifetime.Event) :
    Chronicle σ :=
  events.foldl (step S peer) x

/-- The chronicle is right: its episodes account for what is stored, and hold all messages that were
decrypted. -/
structure Sound (S : Suite) (peer : DeviceId) (x : Chronicle σ) : Prop where
  episodes : x.episodes.Sound S x.life.UsedUp (x.life.records.session peer)
  decrypted : x.life.decrypted = x.episodes.all.flatMap (·.returned)
  notes : x.life.Notes

variable {S : Suite} {peer : DeviceId} {x : Chronicle σ} {e : Lifetime.Event}
  {state : Device.State σ}

open Lifetime (oneTimeOf_cases)

theorem life_step : (x.step S peer e).life = x.life.step S peer e := by
  unfold step
  split <;> rfl

theorem life_run (S : Suite) (peer : DeviceId) (x : Chronicle σ) (events : List Lifetime.Event) :
    (x.run S peer events).life = x.life.run S peer events := by
  induction events generalizing x with
  | nil => rfl
  | cons e events ih =>
    rw [run, List.foldl_cons, Lifetime.run, List.foldl_cons, ← life_step]
    exact ih _

/-- What is noted of an envelope from the other device, by what its entry is opened with. -/
theorem noted_eq {d : Device} {envelope : Wire.Envelope} {entry : Wire.Entry}
    {opening : Device.Opening} {after : Session} {life : Lifetime σ}
    (hdevice : x.life.device = some d) (hsender : envelope.sender = peer)
    (hentry : envelope.entryFor d.id = some entry)
    (hopen : (d.openEntry S envelope.sender entry x.life.state).1 = .ok opening)
    (hafter : life.records.session peer = some after)
    (hread : (d.decrypt S envelope x.life.state).1.isOk = true ∨
      x.life.records.session peer ≠ some after) :
    x.noted S peer envelope life =
      x.episodes.read S entry opening after (d.decrypt S envelope x.life.state).1.isOk := by
  rw [hsender] at hopen
  have hopens : opens? S peer x.life envelope =
      some (entry, opening, (d.decrypt S envelope x.life.state).1.isOk) := by
    simp only [opens?, hdevice, hsender, hentry, hopen, Option.bind_eq_bind, Option.bind_some,
      if_true, Except.toOption, Option.pure_def]
  rw [noted, hopens, hafter]
  exact if_pos hread

/-- What neither comes from the other device nor replaces the session with it is not noted. -/
theorem noted_eq_self {envelope : Wire.Envelope} {life : Lifetime σ}
    (h : envelope.sender ≠ peer ∨ x.life.device = none ∨
      life.records.session peer = x.life.records.session peer ∧
        ∀ d, x.life.device = some d → (d.decrypt S envelope x.life.state).1.isOk = false) :
    x.noted S peer envelope life = x.episodes := by
  unfold noted
  split
  next entry opening returned after hopens hafter =>
    obtain ⟨hsender, hopens⟩ := Option.ite_none_right_eq_some.mp hopens
    obtain ⟨d, hdevice, hopens⟩ := Option.bind_eq_some_iff.mp hopens
    obtain ⟨entry', -, hopens⟩ := Option.bind_eq_some_iff.mp hopens
    obtain ⟨opening', -, hopens⟩ := Option.bind_eq_some_iff.mp hopens
    cases hopens
    rcases h with hother | hnone | ⟨hsame, hrefused⟩
    · exact absurd hsender hother
    · cases hnone.symm.trans hdevice
    · rw [if_neg]
      rintro (hok | hchanged)
      · exact Bool.false_ne_true ((hrefused d hdevice).symm.trans hok)
      · exact hchanged (hsame.symm.trans hafter)
  next => rfl

/-- The chronicle stays right when an envelope of the other device is read. -/
theorem Sound.read {d : Device} {envelope : Wire.Envelope} {entry : Wire.Entry}
    {opening : Device.Opening} {now : UInt64} {bodyKey : Bytes} {after : Session} {returned : Bool}
    (h : x.episodes.Sound S x.life.UsedUp (x.life.records.session peer))
    (hunlocks : Device.Unlocks S d x.life.records envelope entry opening now bodyKey after)
    (hsender : envelope.sender = peer) {usedUp : Bytes → Prop}
    (hused : ∀ name, x.life.UsedUp name → usedUp name)
    (hsettled : returned = true → ∀ own name,
      Device.UsesUp x.life.records entry own name → usedUp name) :
    (x.episodes.read S entry opening after returned).Sound S usedUp (some after) := by
  rw [Episodes.read]
  refine Episodes.Sound.reading ?_ hunlocks.opened returned
  rcases oneTimeOf_cases hunlocks.opensWith with
    ⟨hno, hnone⟩ | ⟨own, name, env, huses, hstarts, hbundle⟩
  · have hstored := hunlocks.opensWith.stored hnone
    rw [hsender] at hstored
    rw [hno, ← hstored]
    exact h.of_receivesNothing (.refl _) hused
  · rw [hstarts]
    exact h.start (fun hgone => hgone.not_usesUp huses)
      (hunlocks.opensWith.unused_of_fresh (by rw [hbundle]; nofun)).2 hused
      fun htaken => hsettled htaken own name huses

/-- The chronicle stays right when an envelope of the other device is decrypted, or refused after
the session was replaced. -/
theorem Sound.decrypt_read {d : Device} {envelope : Wire.Envelope} {entry : Wire.Entry}
    {opening : Device.Opening} {now : UInt64} {bodyKey : Bytes} {after : Session}
    {result : Except DeviceError Bytes} (h : x.Sound S peer) (hsender : envelope.sender = peer)
    (hdevice : x.life.device = some d)
    (hunlocks : Device.Unlocks S d x.life.records envelope entry opening now bodyKey after)
    (hdecrypt : d.decrypt S envelope x.life.state = (result, state))
    (hstate : (x.life.step S peer (.decrypt envelope)).state = state)
    (hafter : state.records.session peer = some after)
    (hread : result.isOk = true ∨ x.life.records.session peer ≠ some after)
    (hsettled : result.isOk = true → ∀ own name, Device.UsesUp x.life.records entry own name →
      (x.life.step S peer (.decrypt envelope)).UsedUp name)
    (hdecrypted : (x.life.step S peer (.decrypt envelope)).decrypted =
      x.life.decrypted ++ if result.isOk then [opening.payload] else [])
    (hdistinct : (x.life.step S peer (.decrypt envelope)).oneTimeKeys.Nodup) :
    (x.step S peer (.decrypt envelope)).Sound S peer := by
  have hchanges : result.isOk = true ∨ state.records ≠ x.life.state.records :=
    hread.imp_right fun hne hsame =>
      hne ((congrArg (Records.session · peer) hsame.symm).trans hafter)
  obtain ⟨opening', hopen, hopens⟩ :=
    Device.exists_opening_of_decrypt hdecrypt hunlocks.addressed hchanges
  obtain ⟨hsession, hpayload, -⟩ := hunlocks.opensWith.unique hopens
  have hunlocks' : Device.Unlocks S d x.life.records envelope entry opening' now bodyKey after :=
    ⟨hunlocks.addressed, hopens, by rw [hsession, hpayload]; exact hunlocks.opened⟩
  have hlife : (x.life.step S peer (.decrypt envelope)).records.session peer = some after := by
    rw [Lifetime.records, hstate]
    exact hafter
  have hnoted := noted_eq (S := S) hdevice hsender hunlocks.addressed hopen hlife
    (by rw [hdecrypt]; exact hread)
  rw [hdecrypt] at hnoted
  rw [step, hnoted]
  refine ⟨?_, ?_, h.notes.step _⟩
  · show Episodes.Sound S _ _ ((x.life.step S peer (.decrypt envelope)).records.session peer)
    rw [hlife]
    exact Sound.read h.episodes hunlocks' hsender (fun name hname => hname.step hdistinct) hsettled
  · rw [Episodes.returned_read, ← h.decrypted, hpayload]
    exact hdecrypted

/-- The chronicle stays right when an envelope of the other device comes. -/
theorem Sound.decrypt {envelope : Wire.Envelope} (h : x.Sound S peer)
    (hsender : envelope.sender = peer)
    (hdistinct : (x.life.step S peer (.decrypt envelope)).oneTimeKeys.Nodup) :
    (x.step S peer (.decrypt envelope)).Sound S peer := by
  -- an envelope that leaves the session as it is adds nothing to the chronicle
  have hsame (hsession : (x.life.step S peer (.decrypt envelope)).records.session peer =
        x.life.records.session peer)
      (hdecrypted : (x.life.step S peer (.decrypt envelope)).decrypted = x.life.decrypted)
      (hrefused : ∀ d, x.life.device = some d →
        (d.decrypt S envelope x.life.state).1.isOk = false) :
      (x.step S peer (.decrypt envelope)).Sound S peer := by
    rw [step, noted_eq_self (.inr (.inr ⟨hsession, hrefused⟩))]
    refine ⟨?_, hdecrypted.trans h.decrypted, h.notes.step _⟩
    exact h.episodes.of_receivesNothing (hsession ▸ .refl _) fun name hname => hname.step hdistinct
  cases hdevice : x.life.device with
  | none =>
    have hlife : x.life.step S peer (.decrypt envelope) = x.life := by
      rw [Lifetime.step, hdevice]
    exact hsame (by rw [hlife]) (by rw [hlife]) (fun d hd => by cases hdevice.symm.trans hd)
  | some d =>
    have hrefused {cause : DeviceError} {state : Device.State σ}
        (hdecrypt : d.decrypt S envelope x.life.state = (.error cause, state)) (d' : Device)
        (hd' : x.life.device = some d') : (d'.decrypt S envelope x.life.state).1.isOk = false := by
      obtain rfl := Option.some.inj (hdevice.symm.trans hd')
      rw [hdecrypt]
      rfl
    rcases Device.decrypt_cases S d envelope x.life.state with ⟨cause, state, hdecrypt, hkeeps⟩ |
      ⟨entry, opening, now, bodyKey, after, hunlocks, ⟨plaintext, state, hdecrypt, -, hrecords⟩ |
        ⟨cause, state, hdecrypt, -, -, hrecords⟩⟩
    · obtain ⟨hstate, hdecrypted⟩ := Lifetime.step_refused peer hdevice hdecrypt
      refine hsame ?_ hdecrypted (hrefused hdecrypt)
      rw [Lifetime.records, hstate, hkeeps.1]
      rfl
    · obtain ⟨hstate, hdecrypted⟩ := Lifetime.step_decrypt peer hdevice hdecrypt
      rw [Lifetime.brought_eq hunlocks hsender] at hdecrypted
      refine h.decrypt_read hsender hdevice hunlocks hdecrypt hstate ?_ (.inl rfl) ?_ hdecrypted
        hdistinct
      · rw [hrecords, Device.Opening.saved_session, hsender, Function.update_self]
      · intro _ own name huses
        obtain ⟨env, hcurrent⟩ := Device.current_of_usesUp hdecrypt hunlocks.addressed huses
        exact h.notes.usedUp_step huses (by rw [Lifetime.records, hstate]; exact hcurrent) hdistinct
    · obtain ⟨hstate, hdecrypted⟩ := Lifetime.step_refused peer hdevice hdecrypt
      have hafter : state.records.session peer = some after := by
        rw [hrecords, ← hsender]
        exact Function.update_self _ _ _
      -- the store failed behind the session: what counts is whether that was another one
      by_cases hstored : x.life.records.session peer = some after
      · refine hsame ?_ hdecrypted (hrefused hdecrypt)
        rw [Lifetime.records, hstate, hafter, hstored]
      · exact h.decrypt_read hsender hdevice hunlocks hdecrypt hstate hafter (.inr hstored)
          (fun hok => absurd hok Bool.false_ne_true) (hdecrypted.trans (List.append_nil _).symm)
          hdistinct

/-- The chronicle stays right, whatever happens. -/
theorem Sound.step (h : x.Sound S peer)
    (hdistinct : (x.life.step S peer e).oneTimeKeys.Nodup) : (x.step S peer e).Sound S peer := by
  by_cases he : ∀ envelope, e = .decrypt envelope → envelope.sender ≠ peer
  · have hepisodes : (x.step S peer e).episodes = x.episodes := by
      cases e with
      | decrypt envelope => exact noted_eq_self (.inl (he envelope rfl))
      | _ => rfl
    refine ⟨?_, ?_, ?_⟩
    · rw [hepisodes, life_step]
      exact h.episodes.of_receivesNothing (Lifetime.receivesNothing_step he) fun name hname =>
        hname.step hdistinct
    · rw [hepisodes, life_step, Lifetime.decrypted_step he, h.decrypted]
    · rw [life_step]
      exact h.notes.step e
  · push Not at he
    obtain ⟨envelope, rfl, hsender⟩ := he
    exact h.decrypt hsender hdistinct

/-- The chronicle is right after every run. -/
theorem Sound.run (hnew : state.records.session peer = none) (events : List Lifetime.Event)
    (hdistinct : ((begin state).run S peer events).life.oneTimeKeys.Nodup) :
    ((begin state).run S peer events).Sound S peer := by
  induction events using List.reverseRecOn with
  | nil =>
    refine ⟨⟨?_, fun p hp => ?_, List.pairwise_singleton _ _⟩, rfl, List.Sublist.refl _⟩
    · show Reception.Follows S _ (state.records.session peer)
      rw [hnew]
      rfl
    · rw [List.mem_singleton.mp hp]
      exact ⟨⟨[], nofun, .nil, .nil⟩, .refl _, nofun, fun _ _ => nofun⟩
  | append_singleton events e ih =>
    have hlast : (begin state).run S peer (events ++ [e]) =
        ((begin state).run S peer events).step S peer e := by
      rw [Chronicle.run, Chronicle.run, List.foldl_append]
      rfl
    rw [hlast] at hdistinct ⊢
    rw [life_step] at hdistinct
    have hkept := Lifetime.oneTimeKeys_prefix_step S peer ((begin state).run S peer events).life e
    exact (ih (hkept.sublist.nodup hdistinct)).step hdistinct

/-- What is assumed of a run: no one-time key is generated twice, and what is assumed of its
episodes. -/
structure Assumed (S : Suite) (x : Chronicle σ) : Prop where
  oneTimeKeys : x.life.oneTimeKeys.Nodup
  episodes : x.episodes.Assumed S

instance : Decidable (x.Assumed S) :=
  decidable_of_iff (_ ∧ _)
    ⟨fun ⟨oneTimeKeys, episodes⟩ => ⟨oneTimeKeys, episodes⟩, fun h => ⟨h.oneTimeKeys, h.episodes⟩⟩

/-- Whatever happens to a device, the ratchet messages of another one that it has decrypted are
those that its episodes have returned. None is decrypted twice in one of them. One is decrypted
again in a later episode only if both sessions were started with the same one-time key, which the
bundle still held because it could not be saved with the earlier session, and only at the same
position of their first receiving chain. -/
theorem read_again (S : Suite) (peer : DeviceId) (state : Device.State σ)
    (hnew : state.records.session peer = none) (events : List Lifetime.Event)
    (h : ((begin state).run S peer events).Assumed S) :
    let episodes := ((begin state).run S peer events).episodes.all
    ((Lifetime.begin state).run S peer events).decrypted = episodes.flatMap (·.returned) ∧
      (∀ p ∈ episodes, p.returned.Nodup) ∧
      episodes.Pairwise fun p q => ∀ message ∈ p.returned, message ∈ q.returned →
        p.ReadAgain S message q := by
  have hsound := Sound.run hnew events h.oneTimeKeys
  refine ⟨?_, fun p hp => hsound.episodes.nodup_returned h.episodes hp,
    hsound.episodes.readAgain h.episodes⟩
  rw [← hsound.decrypted, life_run]
  rfl

open Correspondent (alice bob)

/-- An envelope whose ratchet messages have no handshakes around them. -/
def bare (e : Wire.Envelope) : Wire.Envelope :=
  { e with entries := e.entries.map fun entry =>
      { entry with isHandshake := false, key := (Lifetime.ratchetMessage entry).getD [] } }

/-- Bob's device before it has a bundle, on a store that refuses its sixth call. -/
def forgetful : Device.State (Faulty Memory) :=
  ⟨⟨{}, (· == 5), 0⟩, Correspondent.stepping 3, false⟩

/-- Bob is started and reads an envelope, and his store refuses to replace the bundle. He reads
another one of the same handshake, without the handshake around its message and then as it was
sent. -/
def retelling (first second : Wire.Envelope) : List Lifetime.Event :=
  [.start Correspondent.twoKeys (Correspondent.stepping 3), .decrypt first, .decrypt (bare second),
    .decrypt second]

/-- The message of the second envelope is read in the session that the first one has started, and in
the one that is started in its place. -/
theorem read_again_bob : ∃ envelopes, Lifetime.letters = .ok envelopes ∧
    ∃ first ∈ envelopes[0]?, ∃ second ∈ envelopes[1]?,
      let episodes := ((begin forgetful).run .plain alice.device.id
        (retelling first second)).episodes.all
      ∃ p ∈ episodes[1]?, ∃ q ∈ episodes[2]?, ∃ message ∈ p.returned, message ∈ q.returned ∧
        p.ReadAgain .plain message q := by
  have hrun : ∃ envelopes, Lifetime.letters = .ok envelopes ∧
      ∃ first ∈ envelopes[0]?, ∃ second ∈ envelopes[1]?,
        let x := (begin forgetful).run .plain alice.device.id (retelling first second)
        x.Assumed .plain ∧ ∃ p ∈ x.episodes.all[1]?, ∃ q ∈ x.episodes.all[2]?,
          ∃ message ∈ p.returned, message ∈ q.returned := by
    decide +kernel
  obtain ⟨envelopes, hletters, first, hfirst, second, hsecond, hassumed, p, hp, q, hq, message,
    hearlier, hlater⟩ := hrun
  obtain ⟨-, -, hagain⟩ := read_again .plain alice.device.id forgetful rfl
    (retelling first second) hassumed
  obtain ⟨hi, rfl⟩ := List.getElem?_eq_some_iff.mp hp
  obtain ⟨hj, rfl⟩ := List.getElem?_eq_some_iff.mp hq
  exact ⟨envelopes, hletters, first, hfirst, second, hsecond, _, hp, _, hq, message, hearlier,
    hlater, List.pairwise_iff_getElem.mp hagain 1 2 hi hj (by decide) message hearlier hlater⟩

/-- A ratchet message is decrypted twice, although no key was generated twice and no message has the
authenticators of two keys. -/
theorem decrypted_again_after_rebuild : ∃ envelopes, Lifetime.letters = .ok envelopes ∧
    ∃ first ∈ envelopes[0]?, ∃ second ∈ envelopes[1]?,
      let x := (begin forgetful).run .plain alice.device.id (retelling first second)
      x.Assumed .plain ∧ x.life.decrypted.length = 2 ∧ ¬ x.life.decrypted.Nodup := by
  decide +kernel

end Chronicle

end EndToEnd

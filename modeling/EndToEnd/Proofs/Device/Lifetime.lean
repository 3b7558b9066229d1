import EndToEnd.Device.Encryption
import EndToEnd.Proofs.Bundle
import EndToEnd.Proofs.Correspondence.Introduction
import EndToEnd.Proofs.Device.Effect
import EndToEnd.Proofs.Device.Publishing
import EndToEnd.Proofs.Device.Writing
import EndToEnd.Proofs.Session.Positions
import Mathlib.Data.List.Induction

/-!
# The life of a device

A device is started on a store, again and again, and in between it encrypts and decrypts, learns what
its peers publish, and lets time pass. Whatever envelopes reach it, no ratchet message of one sender
is read twice: its key has been used, and neither a step of the session nor a new session brings that
key back. A session is started by a one-time key of ours, which is then used up for good.

Main statements:

- `Sound.decrypt`: what an envelope does to the account of one sender's messages;
- `sound_run`: the account is right after every run;
- `decrypted_once`: no message of a sender is decrypted twice.
-/

namespace EndToEnd

/-- A device on a store, and what it has received from one other device. -/
structure Lifetime (σ : Type) where
  /-- The device as it was started last, if it was. -/
  device : Option Device
  state : Device.State σ
  /-- The one-time keys that the device has had, the oldest first. -/
  oneTimeKeys : List Key
  /-- The ratchet messages of the other device that were decrypted, in order. -/
  decrypted : List Bytes
  reception : Reception

namespace Lifetime

variable {σ : Type}

/-- What can happen to a device. -/
inductive Event
  /-- It is started on its store, in a new environment. -/
  | start (config : Config) (env : Environment)
  | encrypt (recipients : List String) (plaintext : Bytes)
  | decrypt (e : Wire.Envelope)
  | learnBundle (p : Wire.PublishedBundle)
  | learnDevices (list : Wire.DeviceList)
  /-- It hands its bundle out if it has changed. -/
  | publish
  /-- Time passes. -/
  | wait (seconds : UInt64)

/-- The one-time keys that a bundle holds. -/
def keysHeld : Option Bundle → List Key
  | none => []
  | some b => b.oneTimeKeys.map (·.pair.publicKey)

/-- The one-time keys that a bundle has got when it was made, or when one was used up. -/
def gained (before after : Option Bundle) : List Key :=
  if after = before then [] else (keysHeld after).drop ((keysHeld before).length - 1)

/-- The ratchet message of an entry, with its authenticator: the entry itself, or what a handshake
message carries. -/
def ratchetMessage (entry : Wire.Entry) : Option Bytes :=
  if entry.isHandshake then (Wire.HandshakeMessage.decode entry.key).toOption.map (·.message)
  else some entry.key

/-- The ratchet message that an envelope from the other device brings to a device. -/
def brought (peer : DeviceId) (d : Device) (e : Wire.Envelope) : List Bytes :=
  if e.sender = peer then ((e.entryFor d.id).bind ratchetMessage).toList else []

/-- The one-time key of ours that the session of an opening was started with, if it is a new one. -/
def oneTimeOf (entry : Wire.Entry) (opening : Device.Opening) : Option Bytes :=
  if opening.bundle.isSome then
    (Wire.HandshakeMessage.decode entry.key).toOption.map (·.oneTimeKey)
  else none

/-- The reception when an entry is opened. -/
def answered (r : Reception) (entry : Wire.Entry) (opening : Device.Opening) : Reception :=
  match oneTimeOf entry opening with
  | none => r
  | some oneTime => r.answering oneTime

/-- The reception after an entry was read. -/
def received (S : Suite) (r : Reception) (entry : Wire.Entry) (opening : Device.Opening)
    (after : Session) : Reception :=
  (answered r entry opening).reading S opening.session opening.payload after

variable [Store σ] [LawfulStore σ]

/-- A device before anything has happened, on a store. -/
def begin (state : Device.State σ) : Lifetime σ :=
  ⟨none, state, keysHeld state.records.current, [], .empty⟩

/-- The life in another state. -/
def withState (x : Lifetime σ) (state : Device.State σ) : Lifetime σ :=
  { x with
    state
    oneTimeKeys := x.oneTimeKeys ++ gained x.state.records.current state.records.current }

/-- The life after an action of the device. -/
def does {α : Type} (x : Lifetime σ) (action : Device → Device.Action σ α) : Lifetime σ :=
  match x.device with
  | none => x
  | some d => x.withState (action d x.state).2

/-- The reception after an envelope was decrypted, with the state after it. -/
def noted (S : Suite) (peer : DeviceId) (x : Lifetime σ) (d : Device) (e : Wire.Envelope)
    (state : Device.State σ) : Reception :=
  if e.sender = peer then
    match e.entryFor d.id with
    | none => x.reception
    | some entry =>
      match (d.openEntry S e.sender entry x.state).1, state.records.session peer with
      | .ok opening, some after => received S x.reception entry opening after
      | _, _ => x.reception
  else x.reception

/-- The life after something has happened. -/
def step (S : Suite) (peer : DeviceId) (x : Lifetime σ) : Event → Lifetime σ
  | .start config env =>
    match Device.start S config { x.state with env } with
    | (.ok device, state) => { x.withState state with device := some device }
    | (.error _, state) => x.withState state
  | .encrypt recipients plaintext => x.does (·.encrypt S recipients plaintext)
  | .decrypt e =>
    match x.device with
    | none => x
    | some d =>
      match d.decrypt S e x.state with
      | (.ok _, state) =>
        { x.withState state with
          decrypted := x.decrypted ++ brought peer d e
          reception := x.noted S peer d e state }
      | (.error _, state) => x.withState state
  | .learnBundle p => x.does (·.learnBundle p)
  | .learnDevices list => x.does (·.learnDevices list)
  | .publish => x.does fun _ => Device.takeUnpublished
  | .wait seconds => x.withState { x.state with env := x.state.env.advance seconds }

/-- The life after everything in a list has happened. -/
def run (S : Suite) (peer : DeviceId) (x : Lifetime σ) (events : List Event) : Lifetime σ :=
  events.foldl (step S peer) x

variable {S : Suite} {peer : DeviceId} {x : Lifetime σ} {state : Device.State σ}

/-! ## One-time keys -/

/-- A bundle holds keys that it held before, and those that it has got. -/
def Renews (before after : Option Bundle) : Prop :=
  ∃ left, left.Sublist (keysHeld before) ∧ keysHeld after = left ++ gained before after

theorem Renews.refl (b : Option Bundle) : Renews b b := by
  refine ⟨keysHeld b, .refl _, ?_⟩
  rw [gained, if_pos rfl, List.append_nil]

theorem Renews.of_none (b : Bundle) : Renews none (some b) := by
  refine ⟨[], .refl _, ?_⟩
  rw [gained, if_neg nofun]
  rfl

/-- A bundle that has used up a key holds the others, and fresh ones. -/
theorem Renews.of_used {own : Bundle} {name : Bytes} (hheld : (own.find? name).isSome)
    (target : Nat) (env : Environment) :
    Renews (some own) (some ((own.erase name).replenish S target env).2.1) ∧ ∃ fresh,
      ((own.erase name).replenish S target env).2.1.oneTimeKeys =
        own.oneTimeKeys.eraseP (·.isNamed name) ++ fresh ∧
      gained (some own) (some ((own.erase name).replenish S target env).2.1) =
        fresh.map (·.pair.publicKey) := by
  obtain ⟨fresh, hkeys, -, hdrop⟩ := Bundle.replenish_erase hheld S target env
  have hne := Bundle.replenish_erase_ne hheld S target env
  have hgained : gained (some own) (some ((own.erase name).replenish S target env).2.1) =
      fresh.map (·.pair.publicKey) := by
    rw [gained, if_neg (fun h => hne (Option.some.inj h)), keysHeld, keysHeld, List.length_map,
      ← List.map_drop, hdrop]
  refine ⟨⟨(own.oneTimeKeys.eraseP (·.isNamed name)).map (·.pair.publicKey),
    List.eraseP_sublist.map _, ?_⟩, fresh, hkeys, hgained⟩
  rw [hgained, keysHeld, hkeys, List.map_append]

/-- A one-time key that the device has had and does not hold any more. -/
def UsedUp (x : Lifetime σ) (oneTime : Bytes) : Prop :=
  ∃ key ∈ x.oneTimeKeys, key.bytes = oneTime ∧ key ∉ keysHeld x.state.records.current

/-- All one-time keys that are held are noted. -/
def Notes (x : Lifetime σ) : Prop := (keysHeld x.state.records.current).Sublist x.oneTimeKeys

theorem Notes.withState (h : x.Notes)
    (hrenews : Renews x.state.records.current state.records.current) :
    (x.withState state).Notes := by
  obtain ⟨left, hleft, hkeys⟩ := hrenews
  show (keysHeld state.records.current).Sublist _
  rw [hkeys]
  exact (hleft.trans h).append_right _

/-- A key that is used up does not come back, if no key is generated twice. -/
theorem UsedUp.withState {oneTime : Bytes} (h : x.UsedUp oneTime)
    (hrenews : Renews x.state.records.current state.records.current)
    (hdistinct : (x.withState state).oneTimeKeys.Nodup) : (x.withState state).UsedUp oneTime := by
  obtain ⟨left, hleft, hkeys⟩ := hrenews
  obtain ⟨key, hkey, hbytes, hgone⟩ := h
  refine ⟨key, List.mem_append_left _ hkey, hbytes, fun hin => ?_⟩
  replace hin : key ∈ keysHeld state.records.current := hin
  rw [hkeys] at hin
  rcases List.mem_append.mp hin with hin | hin
  · exact hgone (hleft.mem hin)
  · exact (List.nodup_append.mp hdistinct).2.2 _ hkey _ hin rfl

/-! ## What is accounted for -/

/-- What was received from a device is accounted for, and so are the one-time keys that sessions with
it were started with. -/
structure Sound (S : Suite) (peer : DeviceId) (x : Lifetime σ) : Prop where
  healthy : x.state.Healthy
  follows : x.reception.Follows S (x.state.records.session peer)
  decrypted : x.decrypted = x.reception.opened
  notes : x.Notes
  usedUp : ∀ oneTime, x.reception.StartedWith oneTime → x.UsedUp oneTime

theorem Sound.withState (h : x.Sound S peer) (hhealthy : Device.StaysHealthy x.state state)
    (hrenews : Renews x.state.records.current state.records.current)
    (hdistinct : (x.withState state).oneTimeKeys.Nodup)
    (hfollows : x.reception.Follows S (state.records.session peer)) :
    (x.withState state).Sound S peer :=
  ⟨hhealthy h.healthy, hfollows, h.decrypted, h.notes.withState hrenews,
    fun oneTime hstarted => (h.usedUp oneTime hstarted).withState hrenews hdistinct⟩

/-- What changes nothing that is stored keeps the account. -/
theorem Sound.of_records (h : x.Sound S peer) (hhealthy : Device.StaysHealthy x.state state)
    (hrecords : state.records = x.state.records)
    (hdistinct : (x.withState state).oneTimeKeys.Nodup) : (x.withState state).Sound S peer :=
  h.withState hhealthy (hrecords ▸ .refl _) hdistinct (hrecords ▸ h.follows)

/-! ## Sending, learning and starting -/

/-- The reception accounts for a session that has received nothing since. -/
theorem follows_of_receivesNothing {r : Reception} {before after : Option Session}
    (h : r.Follows S before) (hsends : Device.ReceivesNothing before after) :
    r.Follows S after := by
  cases before <;> cases after
  case none.none => exact h
  case none.some after =>
    obtain rfl : r = .empty := h
    exact Reception.Tracks.empty hsends
  case some.none => exact hsends.elim
  case some.some before after =>
    exact Reception.Tracks.of_frame h hsends.1 hsends.2

/-- An action that only sends keeps the account. -/
theorem Sound.does {α : Type} {action : Device → Device.Action σ α} (h : x.Sound S peer)
    (hsends : ∀ d, Device.Within Device.OnlySends (action d))
    (hhealthy : ∀ d, Device.Within Device.StaysHealthy (action d))
    (hdistinct : (x.does action).oneTimeKeys.Nodup) : (x.does action).Sound S peer := by
  unfold Lifetime.does at hdistinct ⊢
  split at hdistinct
  next => exact h
  next d _ =>
    obtain ⟨hcurrent, hsessions⟩ := hsends d x.state
    exact h.withState (hhealthy d x.state) (hcurrent ▸ .refl _) hdistinct
      (follows_of_receivesNothing h.follows (hsessions peer))

/-- Starting again keeps the account: the bundle is the one that was there, or there was none. -/
theorem Sound.start {config : Config} {env : Environment} (h : x.Sound S peer)
    (hdistinct : (x.step S peer (.start config env)).oneTimeKeys.Nodup) :
    (x.step S peer (.start config env)).Sound S peer := by
  have hhealthy := Device.start_within Device.staysHealthy_chains (σ := σ)
    (fun request => Device.ask_staysHealthy request) (fun _ _ h => h) S config { x.state with env }
  have hcases := Device.start_cases S config ({ x.state with env } : Device.State σ)
  rw [Lifetime.step] at hdistinct ⊢
  cases hstart : Device.start S config { x.state with env } with
  | mk result state =>
    rw [hstart] at hhealthy hcases hdistinct
    have hsound (hdistinct : (x.withState state).oneTimeKeys.Nodup) :
        (x.withState state).Sound S peer := by
      rcases hcases with hrecords | ⟨hnone, env', hrecords⟩
      · exact h.of_records hhealthy hrecords hdistinct
      · refine h.withState hhealthy ?_ hdistinct ?_
        · rw [hrecords, show x.state.records.current = none from hnone]
          exact .of_none _
        · rw [hrecords]
          exact h.follows
    cases result with
    | error cause => exact hsound hdistinct
    | ok device =>
      obtain ⟨hhealthy, hfollows, hdecrypted, hnotes, husedUp⟩ := hsound hdistinct
      exact ⟨hhealthy, hfollows, hdecrypted, hnotes, husedUp⟩

/-! ## Decrypting -/

section Decrypting

open Device (Unlocks OpensWith UsesUp)

variable {d : Device} {e : Wire.Envelope} {entry : Wire.Entry} {opening : Device.Opening}
  {now : UInt64} {bodyKey : Bytes} {after : Session} {own : Bundle} {name : Bytes}

/-- An envelope brings the message that its entry is opened to. -/
theorem brought_eq {r : Records} (h : Unlocks S d r e entry opening now bodyKey after)
    (hsender : e.sender = peer) : brought peer d e = [opening.payload] := by
  have hmessage : ratchetMessage entry = some opening.payload := by
    unfold ratchetMessage
    cases h.opensWith with
    | message plain => rw [if_neg (by rw [plain]; exact Bool.false_ne_true)]
    | known handshake decoded => rw [if_pos handshake, decoded]; rfl
    | fresh handshake decoded => rw [if_pos handshake, decoded]; rfl
  rw [brought, if_pos hsender, h.addressed, Option.bind_some, hmessage]
  rfl

/-- What is noted of an envelope is what its entry was opened with. -/
theorem noted_eq (h : Unlocks S d x.state.records e entry opening now bodyKey after)
    (hhealthy : x.state.Healthy) (hsender : e.sender = peer)
    (hsession : state.records.session peer = some after) :
    x.noted S peer d e state = received S x.reception entry opening after := by
  rw [noted, if_pos hsender]
  simp only [h.addressed]
  rcases h.opensWith.reads with ⟨opening', s', hopen, hopens, -⟩ | ⟨hno, -⟩
  · obtain ⟨hsame, hpayload, hbundle⟩ := h.opensWith.unique hopens
    have hfresh : opening'.bundle.isSome = opening.bundle.isSome := by
      rw [Bool.eq_iff_iff, Option.isSome_iff_ne_none, Option.isSome_iff_ne_none, not_iff_not]
      exact hbundle
    rw [hopen, hsession]
    simp only [received, answered, oneTimeOf, hfresh, hsame, hpayload]
  · exact absurd hhealthy hno

/-- A bundle holds a key if a one-time key of its public half can be looked up. -/
theorem mem_keysHeld {key : Key} : key ∈ keysHeld (some own) ↔ (own.find? key.bytes).isSome := by
  rw [Bundle.find?_isSome, keysHeld, List.mem_map]
  exact exists_congr fun k => and_congr_right fun _ => Bundle.isNamed_bytes.symm

/-- A one-time key that is used up names no session to start. -/
theorem UsedUp.not_usesUp (h : x.UsedUp name) : ¬ UsesUp x.state.records entry own name := by
  intro huses
  obtain ⟨key, -, rfl, hgone⟩ := h
  rw [huses.current, mem_keysHeld] at hgone
  exact hgone huses.held

/-- The one-time key that an entry names is used up when the bundle is replaced. -/
theorem Notes.usedUp_of_usesUp (h : x.Notes)
    (huses : UsesUp x.state.records entry own name) {env : Environment} {target : Nat}
    (hcurrent : state.records.current = some ((own.erase name).replenish S target env).2.1)
    (hdistinct : (x.withState state).oneTimeKeys.Nodup) : (x.withState state).UsedUp name := by
  obtain ⟨k, hk, hnamed⟩ := Bundle.find?_isSome.mp huses.held
  obtain rfl : k.pair.publicKey.bytes = name := beq_iff_eq.mp hnamed
  obtain ⟨-, fresh, hkeys, hgained⟩ := Renews.of_used (S := S) huses.held target env
  have hnotes : (keysHeld (some own)).Sublist x.oneTimeKeys := huses.current ▸ h
  have hheld : k.pair.publicKey ∈ keysHeld (some own) := List.mem_map.mpr ⟨k, hk, rfl⟩
  refine ⟨k.pair.publicKey, List.mem_append_left _ (hnotes.mem hheld), rfl, ?_⟩
  show _ ∉ keysHeld state.records.current
  have hnodup : ((own.oneTimeKeys ++ fresh).map (·.pair.publicKey)).Nodup := by
    rw [Lifetime.withState, hcurrent, huses.current, hgained] at hdistinct
    rw [List.map_append]
    exact hdistinct.sublist (hnotes.append_right _)
  rw [hcurrent, mem_keysHeld, Bundle.find?_replenish_erase hkeys hnodup huses.held]
  exact Bool.false_ne_true

/-- Nothing is read before an entry is opened. -/
theorem opened_answered (r : Reception) (entry : Wire.Entry) (opening : Device.Opening) :
    (answered r entry opening).opened = r.opened := by
  unfold answered
  split <;> rfl

/-- An entry is opened with the stored session, or it uses up the one-time key that starts another. -/
theorem oneTimeOf_cases {records : Records} {sender : DeviceId}
    (h : OpensWith S d records sender entry opening) :
    (oneTimeOf entry opening = none ∧ opening.bundle = none) ∨
    ∃ own name env, UsesUp records entry own name ∧ oneTimeOf entry opening = some name ∧
      opening.bundle = some ((own.erase name).replenish S d.config.oneTimeKeys env).2.1 := by
  rcases h.usesUp_cases with ⟨hnone, -⟩ | ⟨own, name, env, huses, hbundle⟩
  · exact .inl ⟨by simp [oneTimeOf, hnone], hnone⟩
  · refine .inr ⟨own, name, env, huses, ?_, hbundle⟩
    obtain ⟨m, hm, rfl⟩ := huses.named
    rw [oneTimeOf, if_pos (by rw [hbundle]; rfl), hm]
    rfl

/-- The reception goes on, or it is that of a session which is started. -/
theorem answered_cases {records : Records} (r : Reception)
    (h : OpensWith S d records e.sender entry opening) :
    (answered r entry opening = r ∧ opening.bundle = none) ∨
    ∃ own name env, UsesUp records entry own name ∧
      answered r entry opening = r.answering name ∧
      opening.bundle = some ((own.erase name).replenish S d.config.oneTimeKeys env).2.1 := by
  rcases oneTimeOf_cases h with ⟨hno, hnone⟩ | ⟨own, name, env, huses, hstarts, hbundle⟩
  · exact .inl ⟨by rw [answered, hno], hnone⟩
  · exact .inr ⟨own, name, env, huses, by rw [answered, hstarts], hbundle⟩

/-- The session that an entry is opened with is accounted for: the stored one, or one that a one-time
key has started, since no other session was started with that. -/
theorem Sound.tracks_answered (h : x.Sound S peer)
    (hopens : OpensWith S d x.state.records e.sender entry opening) (hsender : e.sender = peer) :
    (answered x.reception entry opening).Tracks S opening.session := by
  rcases answered_cases x.reception hopens with
    ⟨hsame, hnone⟩ | ⟨own, name, env, huses, hanswered, hbundle⟩
  · have hfollows := h.follows
    rw [← hsender, hopens.stored hnone] at hfollows
    rw [hsame]
    exact hfollows
  · rw [hanswered]
    exact h.follows.answering (fun hstarted => (h.usedUp name hstarted).not_usesUp huses)
      (hopens.unused_of_fresh (by rw [hbundle]; nofun)).2

/-- After an entry was read, the one-time keys that sessions were started with are used up. -/
theorem Sound.usedUp_answered (h : x.Sound S peer)
    (hopens : OpensWith S d x.state.records e.sender entry opening)
    (hrecords : state.records = opening.saved x.state.records e.sender after)
    (hdistinct : (x.withState state).oneTimeKeys.Nodup) :
    Renews x.state.records.current state.records.current ∧ ∀ oneTime,
      (answered x.reception entry opening).StartedWith oneTime →
        (x.withState state).UsedUp oneTime := by
  rw [Device.Opening.saved] at hrecords
  rcases answered_cases x.reception hopens with
    ⟨hsame, hnone⟩ | ⟨own, name, env, huses, hanswered, hbundle⟩
  · rw [hnone] at hrecords
    have hrenews : Renews x.state.records.current state.records.current := hrecords ▸ .refl _
    refine ⟨hrenews, fun oneTime hstarted => ?_⟩
    exact (h.usedUp oneTime (hsame ▸ hstarted)).withState hrenews hdistinct
  · rw [hbundle] at hrecords
    have hcurrent : state.records.current =
        some ((own.erase name).replenish S d.config.oneTimeKeys env).2.1 := by rw [hrecords]; rfl
    have hrenews : Renews x.state.records.current state.records.current := by
      rw [huses.current, hcurrent]
      exact (Renews.of_used huses.held _ env).1
    refine ⟨hrenews, fun oneTime hstarted => ?_⟩
    rw [hanswered] at hstarted
    rcases hstarted.of_answering with rfl | hstarted
    · exact h.notes.usedUp_of_usesUp huses hcurrent hdistinct
    · exact (h.usedUp oneTime hstarted).withState hrenews hdistinct

/-- An envelope that is read keeps the account. -/
theorem Sound.read (h : x.Sound S peer)
    (hunlocks : Unlocks S d x.state.records e entry opening now bodyKey after)
    (hhealthy : Device.StaysHealthy x.state state)
    (hrecords : state.records = opening.saved x.state.records e.sender after)
    (hdistinct : (x.withState state).oneTimeKeys.Nodup) :
    ({ x.withState state with
        decrypted := x.decrypted ++ brought peer d e
        reception := x.noted S peer d e state } : Lifetime σ).Sound S peer := by
  have hsession (other : DeviceId) : state.records.session other =
      if other = e.sender then some after else x.state.records.session other := by
    rw [hrecords, Device.Opening.saved]
    split <;> exact Function.update_apply _ _ _ _
  obtain ⟨hrenews, husedUp⟩ := h.usedUp_answered hunlocks.opensWith hrecords hdistinct
  have hnotes := h.notes.withState hrenews
  -- the account is kept with one device, and envelopes of others leave its session alone
  by_cases hsender : e.sender = peer
  · have hafter : state.records.session peer = some after := by rw [hsession, if_pos hsender.symm]
    rw [noted_eq hunlocks h.healthy hsender hafter]
    refine ⟨hhealthy h.healthy, ?_, ?_, hnotes, fun oneTime hstarted =>
      husedUp oneTime (Reception.StartedWith.of_reading hstarted)⟩
    · show Reception.Follows S _ (state.records.session peer)
      rw [hafter]
      exact (h.tracks_answered hunlocks.opensWith hsender).reading hunlocks.opened
    · show x.decrypted ++ brought peer d e =
        (answered x.reception entry opening).opened ++ [opening.payload]
      rw [brought_eq hunlocks hsender, h.decrypted, opened_answered]
  · rw [noted, if_neg hsender]
    refine ⟨hhealthy h.healthy, ?_, ?_, hnotes, fun oneTime hstarted =>
      (h.usedUp oneTime hstarted).withState hrenews hdistinct⟩
    · show Reception.Follows S x.reception (state.records.session peer)
      rw [hsession, if_neg (Ne.symm hsender)]
      exact h.follows
    · show x.decrypted ++ brought peer d e = x.reception.opened
      rw [brought, if_neg hsender, List.append_nil, h.decrypted]

/-- An envelope keeps the account. -/
theorem Sound.decrypt (h : x.Sound S peer)
    (hdistinct : (x.step S peer (.decrypt e)).oneTimeKeys.Nodup) :
    (x.step S peer (.decrypt e)).Sound S peer := by
  rw [Lifetime.step] at hdistinct ⊢
  cases hdevice : x.device with
  | none => exact h
  | some d =>
    rw [hdevice] at hdistinct
    have hhealthy := Device.decrypt_within Device.staysHealthy_chains (σ := σ)
      (fun request => Device.ask_staysHealthy request) (fun _ _ h => h) S d e x.state
    rcases Device.decrypt_outcome S d e x.state with ⟨cause, state, hdecrypt, hkeeps⟩ |
      ⟨entry, opening, bodyKey, after, hunlocks, ⟨plaintext, state, hdecrypt, -, hrecords, -⟩ |
        ⟨cause, state, hdecrypt, -, hno, -⟩⟩
    all_goals simp only [hdecrypt] at hdistinct hhealthy ⊢
    · exact h.of_records hhealthy hkeeps.1 hdistinct
    · exact h.read hunlocks hhealthy hrecords hdistinct
    · exact absurd h.healthy hno

end Decrypting

/-! ## Runs -/

/-- The account is kept by everything that happens to the device. -/
theorem Sound.step {e : Event} (h : x.Sound S peer)
    (hdistinct : (x.step S peer e).oneTimeKeys.Nodup) : (x.step S peer e).Sound S peer := by
  have hown {α : Type} {action : Device.Action σ α} (hkeeps : Device.Within Device.KeepsOwn action) :
      Device.Within Device.OnlySends action := fun s => ⟨(hkeeps s).1, fun other => by
        rw [(hkeeps s).2]
        exact .refl _⟩
  have hask {α : Type} (request : Store.Request α) :
      Device.Within Device.StaysHealthy (Device.ask (σ := σ) request) :=
    Device.ask_staysHealthy request
  cases e with
  | start config env => exact h.start hdistinct
  | encrypt recipients plaintext =>
    exact h.does (fun d => Device.encrypt_onlySends S d recipients plaintext)
      (fun d => Device.encrypt_within Device.staysHealthy_chains hask S d recipients plaintext)
      hdistinct
  | decrypt e => exact h.decrypt hdistinct
  | learnBundle p =>
    exact h.does (fun d => hown (Device.learnBundle_keepsOwn d p))
      (fun d => Device.learnBundle_within Device.staysHealthy_chains (fun _ _ => hask _) d p)
      hdistinct
  | learnDevices list =>
    exact h.does (fun d => hown (Device.learnDevices_keepsOwn d list))
      (fun d => Device.learnDevices_within Device.staysHealthy_chains (fun _ _ => hask _) d list)
      hdistinct
  | publish =>
    exact h.does (fun _ s => .of_records (Device.takeUnpublished_sameRecords s))
      (fun _ => Device.takeUnpublished_within Device.staysHealthy_chains (hask _) fun _ _ h => h)
      hdistinct
  | wait seconds => exact h.of_records (fun h => h) rfl hdistinct

/-- One-time keys stay noted. -/
theorem oneTimeKeys_prefix_step (S : Suite) (peer : DeviceId) (x : Lifetime σ) (e : Event) :
    x.oneTimeKeys <+: (x.step S peer e).oneTimeKeys := by
  have hstate (state : Device.State σ) : x.oneTimeKeys <+: (x.withState state).oneTimeKeys :=
    List.prefix_append _ _
  have hdoes {α : Type} (action : Device → Device.Action σ α) :
      x.oneTimeKeys <+: (x.does action).oneTimeKeys := by
    unfold Lifetime.does
    split
    next => exact List.prefix_rfl
    next => exact hstate _
  cases e with
  | start config env =>
    rw [Lifetime.step]
    split <;> exact hstate _
  | decrypt e =>
    rw [Lifetime.step]
    split
    next => exact List.prefix_rfl
    next => split <;> exact hstate _
  | wait seconds => exact hstate _
  | _ => exact hdoes _

/-- The account is right after every run. -/
theorem sound_run (hhealthy : state.Healthy) (hnew : state.records.session peer = none)
    (events : List Event)
    (hdistinct : ((begin state).run S peer events).oneTimeKeys.Nodup) :
    ((begin state).run S peer events).Sound S peer := by
  induction events using List.reverseRecOn with
  | nil =>
    refine ⟨hhealthy, ?_, rfl, List.Sublist.refl _, fun oneTime hstarted => ?_⟩
    · show Reception.Follows S _ (state.records.session peer)
      rw [hnew]
      rfl
    · exact absurd hstarted Reception.not_startedWith_empty
  | append_singleton events e ih =>
    rw [run, List.foldl_append] at hdistinct ⊢
    exact (ih ((oneTimeKeys_prefix_step S peer _ e).sublist.nodup hdistinct)).step hdistinct

/-- What is assumed of a run: no one-time key is generated twice, the message keys at different
positions differ, and no message that was read has the authenticator of two of them. -/
structure Assumed (S : Suite) (x : Lifetime σ) : Prop where
  oneTimeKeys : x.oneTimeKeys.Nodup
  keys : x.reception.KeysDistinct
  tags : x.reception.TagsDistinct S

/-- No ratchet message of a sender is decrypted twice in the life of a device, whatever envelopes
bring it. -/
theorem decrypted_once (hhealthy : state.Healthy) (hnew : state.records.session peer = none)
    (events : List Event) (h : ((begin state).run S peer events).Assumed S) :
    ((begin state).run S peer events).decrypted.Nodup := by
  have hsound := sound_run hhealthy hnew events h.oneTimeKeys
  rw [hsound.decrypted]
  exact hsound.follows.nodup_opened h.keys h.tags

open Correspondent (alice bob)

/-- What Alice writes to Bob before she has read anything: two envelopes of one handshake, and the
first of them again without the handshake around its ratchet message. -/
def letters : Except DeviceError (List Wire.Envelope) := do
  let (first, state) := alice.device.encrypt .plain ["bob"] [1] alice.state
  let (second, _) := alice.device.encrypt .plain ["bob"] [2] state
  let first ← first
  let bare (entry : Wire.Entry) : Wire.Entry :=
    { entry with isHandshake := false, key := (ratchetMessage entry).getD [] }
  return [first, ← second, { first with entries := first.entries.map bare }]

/-- Bob reads both envelopes, the later one first, and is started again; all three are brought to him
again before and after that. -/
def events (envelopes : List Wire.Envelope) : List Event :=
  let start := .start Correspondent.twoKeys (Correspondent.stepping 5)
  let decrypts := envelopes.reverse.map .decrypt
  [start] ++ decrypts ++ decrypts ++ [.encrypt ["alice"] [3], start] ++ decrypts

/-- Two ratchet messages are decrypted, each once. -/
theorem decrypted_once_bob : ∃ envelopes, letters = .ok envelopes ∧
    let x := (begin bob.state).run .plain alice.device.id (events envelopes)
    x.decrypted.length = 2 ∧ x.decrypted.Nodup := by
  have hrun : ∃ envelopes, letters = .ok envelopes ∧
      let x := (begin bob.state).run .plain alice.device.id (events envelopes)
      x.decrypted.length = 2 ∧ x.oneTimeKeys.Nodup ∧ x.reception.KeysDistinct ∧
        x.reception.TagsDistinct .plain := by
    decide +kernel
  obtain ⟨envelopes, hletters, hlength, honeTime, hkeys, htags⟩ := hrun
  have hnew : bob.state.records.session alice.device.id = none := by decide +kernel
  exact ⟨envelopes, hletters, hlength,
    decrypted_once (Correspondent.healthy_memory bob) hnew _ ⟨honeTime, hkeys, htags⟩⟩

end Lifetime

end EndToEnd

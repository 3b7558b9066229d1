import EndToEnd.Proofs.Device.Events
import EndToEnd.Proofs.Device.Isolation
import EndToEnd.Proofs.Session.LowOrder

/-!
# Answering whoever has written first

A device that writes first is answered in the session that its handshake message starts. Of all that
it sends, one thing decides whether it can be: the ratchet key of the message inside, which is the
first that the session has. It is taken as it comes, and the first agreement with it is the one that
an answer needs.

What a life has stored remembers where it is from: every session was started by us, or with a ratchet
key that a handshake message has brought. So if none of the keys brought by a device is refused, it
can be answered, whatever else it has sent. If its last handshake has brought one that is, then no
envelope for it is ever sealed, nor for anybody together with it.

Main statements:

- `Known.step`, `known_run`: every session that is stored goes back to its first ratchet key;
- `GoesBack.answerable`: whose session can be answered;
- `answers_by_first_key`: which devices an envelope can be sealed for.
-/

namespace EndToEnd

namespace Records

variable {S : Suite} {r : Records} {peer : DeviceId}

/-- How many messages can still be sealed for a device before it answers. -/
def room (r : Records) (peer : DeviceId) : Nat :=
  match r.session peer with
  | some session => session.room
  | none => UInt32.size - 1

theorem room_of_session {session : Session} (h : r.session peer = some session) :
    r.room peer = session.room := by
  rw [room, h]

theorem room_of_none (h : r.session peer = none) : r.room peer = UInt32.size - 1 := by
  rw [room, h]

/-- What is stored lasts while there is room, if the session with the device can seal. -/
theorem serves_of_room {count : Nat} (hcount : count ≤ r.room peer)
    (hseals : ∀ session, r.session peer = some session → session.CanSeal S) :
    r.Serves S peer count := by
  cases hsession : r.session peer with
  | some session =>
    rw [room_of_session hsession] at hcount
    exact (serves_of_session hsession).mpr (.inr ⟨hseals session hsession, hcount⟩)
  | none =>
    rw [room_of_none hsession] at hcount
    have hsize : UInt32.size = 4294967296 := rfl
    exact (serves_of_none hsession).mpr fun _ => by omega

end Records

namespace Lifetime

open Device (OpensWith SealsEach Unlocks UsesUp)

variable {σ : Type} [Store σ] [LawfulStore σ] {S : Suite} {peer other id : DeviceId}
  {x : Lifetime σ} {events : List Event} {session after : Session} {d : Device}

/-- The ratchet key of the message inside a handshake message. -/
def firstKey (entry : Wire.Entry) : Option Bytes :=
  if entry.isHandshake then do
    let payload ← ratchetMessage entry
    let (body, _) ← (Wire.splitMac payload).toOption
    let message ← (Wire.RatchetMessage.decode body).toOption
    return message.ratchetKey
  else none

/-- A handshake message that a device has sent to another brings a ratchet key. -/
def Brings (events : List Event) (id other : DeviceId) (their : Key) : Prop :=
  ∃ e entry, Event.decrypt e ∈ events ∧ e.sender = other ∧ e.entryFor id = some entry ∧
    firstKey entry = some their.bytes

/-- A session goes back to its start: by us, or with a ratchet key that has been brought. -/
def GoesBack (S : Suite) (events : List Event) (id other : DeviceId) (session : Session) : Prop :=
  ∃ first, Session.Reached S first session ∧
    ∀ their, first = some their → Brings events id other their

theorem GoesBack.append (h : GoesBack S events id other session) (e : Event) :
    GoesBack S (events ++ [e]) id other session := by
  obtain ⟨first, hreached, hbrings⟩ := h
  refine ⟨first, hreached, fun their hfirst => ?_⟩
  obtain ⟨envelope, entry, hevent, hrest⟩ := hbrings their hfirst
  exact ⟨envelope, entry, List.mem_append_left _ hevent, hrest⟩

theorem GoesBack.operates (h : GoesBack S events id other session)
    (ho : Session.Operates S session after) : GoesBack S events id other after := by
  obtain ⟨first, hreached, hbrings⟩ := h
  exact ⟨first, hreached.operates ho, hbrings⟩

/-- If every key that has been brought contributes, the session can be answered. -/
theorem GoesBack.answerable (h : GoesBack S events id other session)
    (hbrings : ∀ their, Brings events id other their → S.Contributes their) :
    session.Answerable S := by
  obtain ⟨first, hreached, hfirst⟩ := h
  exact ⟨first, hreached, fun their hsome => hbrings their (hfirst their hsome)⟩

/-! ## What sealing and opening do -/

/-- The session that an entry is opened with is stored, or the entry has brought its first key. -/
theorem starts_of_opensWith {r : Records} {entry : Wire.Entry} {opening : Device.Opening}
    (h : OpensWith S d r other entry opening) :
    r.session other = some opening.session ∨
      ∃ their, firstKey entry = some their.bytes ∧
        Session.Starts S (some their) opening.session := by
  cases h with
  | message _ stored => exact .inl stored
  | known _ _ _ _ stored => exact .inl stored
  | @fresh m _ _ _ body mac first _ _ handshake decoded _ _ _ split read started =>
    right
    obtain ⟨their, htheir, -⟩ := bind_eq_ok.mp started
    have hbytes := Key.parse_eq_ok.mp htheir
    refine ⟨their, ?_, .responder (hbytes ▸ started)⟩
    rw [firstKey, if_pos handshake, ratchetMessage, if_pos handshake, decoded]
    show ((Wire.splitMac m.message).toOption.bind _) = _
    rw [split]
    show ((Wire.RatchetMessage.decode body).toOption.bind _) = _
    rw [read, ← hbytes]
    rfl

/-- After entries were sealed for a device, the session with it goes back as far as before, or to
us. -/
theorem goesBack_of_sealsEach {bodyKey : Key} {s s' : Device.State σ} {entries : List Wire.Entry}
    (h : SealsEach S other bodyKey s entries s')
    (hbefore : ∀ session, s.records.session other = some session →
      GoesBack S events id other session) :
    ∀ session, s'.records.session other = some session → GoesBack S events id other session := by
  induction h with
  | nothing spares =>
    intro session hsession
    exact hbefore session (spares.1.symm.trans hsession)
  | @one s s' entry source after env seals =>
    intro session hsession
    have hafter : s'.records.session other = some after := by
      rw [seals.records]
      exact Function.update_self _ _ _
    obtain rfl := Option.some.inj (hafter.symm.trans hsession)
    have hsource : GoesBack S events id other source := by
      rcases seals.source with hstored | ⟨-, bundle, k, own, ephemeral, secret, ratchet, -, -, -, -, rfl⟩
      · exact hbefore source hstored
      · exact ⟨none, Session.Starts.initiator.reached, nofun⟩
    exact hsource.operates (Session.operates_of_sealForPeer seals.sealed)
  | append _ _ ih ih' => exact ih' (ih hbefore)

/-! ## What a life remembers -/

/-- What a life has stored: a device has a bundle of its own, and every session goes back to its
start. -/
structure Known (S : Suite) (events : List Event) (x : Lifetime σ) : Prop where
  own : ∀ b, x.records.current = some b → b.identity.hasPrivate = true
  device : ∀ d, x.device = some d → ∃ b, x.records.current = some b ∧ b.device = d.id
  sessions : ∀ other session, x.records.session other = some session →
    ∃ d, x.device = some d ∧ GoesBack S events d.id other session

/-- A device that has been started owns its bundle. -/
theorem Known.owned (h : x.Known S events) (hdevice : x.device = some d) :
    ∃ b, x.Owned b ∧ b.device = d.id := by
  obtain ⟨b, hb, hid⟩ := h.device d hdevice
  refine ⟨b, ⟨⟨b, hb, rfl, rfl⟩, fun d' hd' => ?_⟩, hid⟩
  obtain rfl := Option.some.inj (hdevice.symm.trans hd')
  exact hid.symm

/-- A device that has been started stays the same one. -/
theorem Known.device_step (h : x.Known S events) (hdevice : x.device = some d) (peer : DeviceId)
    (e : Event) : ∃ d', (x.step S peer e).device = some d' ∧ d'.id = d.id := by
  obtain ⟨b, howned, hid⟩ := h.owned hdevice
  rcases Lifetime.device_step S peer x e with hsame | ⟨_, _, d', _, -, hd', -⟩
  · exact ⟨d, hsame.trans hdevice, rfl⟩
  · exact ⟨d', hd', ((howned.step e).device d' hd').trans hid⟩

/-- Before a device is started, no session changes. -/
theorem session_of_not_started (hdevice : x.device = none) (e : Event) :
    (x.step S peer e).records.session = x.records.session := by
  by_cases hquiet : e.IsQuiet
  · exact session_quiet hquiet
  cases e with
  | encrypt recipients plaintext => rw [Lifetime.step, Lifetime.does, hdevice]
  | decrypt e => rw [Lifetime.step, hdevice]
  | _ => exact absurd trivial hquiet

/-- Encrypting leaves sessions that go back to their start. -/
theorem Known.goesBack_encrypt (h : x.Known S events) (hdevice : x.device = some d)
    (recipients : List String) (plaintext : Bytes) :
    ∀ session, (x.step S peer (.encrypt recipients plaintext)).records.session other = some session →
      GoesBack S events d.id other session := by
  have hbefore (session : Session) (hsession : x.state.records.session other = some session) :
      GoesBack S events d.id other session := by
    obtain ⟨d', hd', hback⟩ := h.sessions other session hsession
    obtain rfl := Option.some.inj (hdevice.symm.trans hd')
    exact hback
  have htells := Device.encrypt_tells S d recipients plaintext other x.state
  simp only [Lifetime.step, Lifetime.does, hdevice]
  cases hencrypt : d.encrypt S recipients plaintext x.state with
  | mk result s =>
    rw [hencrypt] at htells
    cases result with
    | ok e => exact goesBack_of_sealsEach htells.1 hbefore
    | error cause =>
      obtain ⟨lost, hlost⟩ := htells
      exact goesBack_of_sealsEach hlost hbefore

/-- An envelope leaves sessions that go back to their start, perhaps to what it brings itself. -/
theorem Known.goesBack_decrypt (h : x.Known S events) (hdevice : x.device = some d)
    (e : Wire.Envelope) :
    ∀ session, (x.step S peer (.decrypt e)).records.session other = some session →
      GoesBack S (events ++ [.decrypt e]) d.id other session := by
  have hbefore (session : Session) (hsession : x.records.session other = some session) :
      GoesBack S (events ++ [.decrypt e]) d.id other session := by
    obtain ⟨d', hd', hback⟩ := h.sessions other session hsession
    obtain rfl := Option.some.inj (hdevice.symm.trans hd')
    exact hback.append _
  intro session hsession
  rcases session_decrypt S peer x e with
    hsame | ⟨d', entry, opening, now, bodyKey, after, hd', hunlocks, hupdate⟩
  · exact hbefore session (hsame ▸ hsession)
  obtain rfl := Option.some.inj (hdevice.symm.trans hd')
  rw [hupdate] at hsession
  -- only the sender's session is another one, and the entry has brought its first key if it is new
  by_cases hsender : other = e.sender
  · subst hsender
    rw [Function.update_self] at hsession
    obtain rfl := Option.some.inj hsession
    have hopening : GoesBack S (events ++ [.decrypt e]) d.id e.sender opening.session := by
      rcases starts_of_opensWith hunlocks.opensWith with hstored | ⟨their, hfirst, hstarts⟩
      · exact hbefore _ hstored
      · refine ⟨some their, hstarts.reached, ?_⟩
        rintro _ ⟨⟩
        exact ⟨e, entry, List.mem_append_right _ (List.mem_singleton_self _), rfl,
          hunlocks.addressed, hfirst⟩
    exact hopening.operates (.opened hunlocks.opened)
  · rw [Function.update_of_ne hsender] at hsession
    exact hbefore session hsession

/-- Whatever happens, it is known where the sessions are from. -/
theorem Known.step (h : x.Known S events) (e : Event) :
    (x.step S peer e).Known S (events ++ [e]) := by
  refine ⟨fun b hb => ?_, fun d hd => ?_, fun other session hsession => ?_⟩
  · rcases current_step S peer x e with
      hsame | ⟨-, count, env, hfirst⟩ | ⟨own, name, target, env, hown, -, hused⟩
    · exact h.own b (hsame ▸ hb)
    · obtain rfl := Option.some.inj (hfirst.symm.trans hb)
      exact Bundle.hasPrivate_generate S count env
    · obtain rfl := Option.some.inj (hused.symm.trans hb)
      rw [(Bundle.replenish_erase_frame S own name target env).2]
      exact h.own own hown
  · rcases Lifetime.device_step S peer x e with hsame | ⟨config, env, d', s', rfl, hd', hstart⟩
    · obtain ⟨b, howned, -⟩ := h.owned (hsame ▸ hd)
      obtain ⟨b', hb', hdevice, -⟩ := (howned.step e).current
      exact ⟨b', hb', hdevice.trans ((howned.step e).device d hd).symm⟩
    · obtain rfl := Option.some.inj (hd'.symm.trans hd)
      rw [records_start, hstart]
      exact (Device.start_ok hstart).2
  · cases hdevice : x.device with
    | none =>
      rw [session_of_not_started hdevice] at hsession
      obtain ⟨d, hd, -⟩ := h.sessions other session hsession
      exact nomatch hdevice.symm.trans hd
    | some d =>
      obtain ⟨d', hd', hid⟩ := h.device_step hdevice peer e
      refine ⟨d', hd', hid ▸ ?_⟩
      -- only writing to a device and reading from it touch a session
      by_cases hquiet : e.IsQuiet
      · rw [session_quiet hquiet] at hsession
        obtain ⟨_, hd, hback⟩ := h.sessions other session hsession
        obtain rfl := Option.some.inj (hdevice.symm.trans hd)
        exact hback.append e
      cases e with
      | encrypt recipients plaintext =>
        exact (h.goesBack_encrypt hdevice recipients plaintext session hsession).append _
      | decrypt e => exact h.goesBack_decrypt hdevice e session hsession
      | _ => exact absurd trivial hquiet

/-- It is known of every life that began without sessions. -/
theorem known_run {state : Device.State σ} (hnew : ∀ other, state.records.session other = none)
    (hown : ∀ b, state.records.current = some b → b.identity.hasPrivate = true)
    (events : List Event) : ((begin state).run S peer events).Known S events := by
  induction events using List.reverseRecOn with
  | nil =>
    refine ⟨hown, nofun, fun other session hsession => ?_⟩
    exact nomatch (hnew other).symm.trans hsession
  | append_singleton events e ih =>
    rw [run, List.foldl_append]
    exact ih.step e

/-! ## Who can be answered -/

/-- What a life has stored lasts for every device whose session can be answered, while there is
room. -/
theorem servesAll_of_answerable (hS : S.RefusesByPublicKey) {turns : List DeviceId}
    (hanswers : ∀ other ∈ turns, other ≠ d.id → ∀ session,
      x.records.session other = some session → session.Answerable S)
    (hroom : ∀ other ∈ turns, other ≠ d.id → turns.count other ≤ x.records.room other) :
    Device.ServesAll S d x.records turns := by
  intro other hother
  by_cases hturn : other ∈ turns
  · exact Records.serves_of_room (hroom other hturn hother) fun session hsession =>
      (hanswers other hturn hother session hsession).canSeal hS
  · rw [List.count_eq_zero_of_not_mem hturn]
    exact Records.serves_zero

/-- Nothing is sealed for a device whose session has only a key that every private key refuses. -/
theorem nothing_sealed {their bodyKey : Key} {s s' : Device.State σ} {entries : List Wire.Entry}
    (hrefused : ∀ own, S.sharedSecret own their = none)
    (h : SealsEach S other bodyKey s entries s') (hstored : s.records.session other = some session)
    (hstuck : session.Stuck their) : entries = [] := by
  induction h with
  | nothing => rfl
  | @one s s' entry source after env seals =>
    rcases seals.source with hsource | ⟨hnone, -⟩
    · obtain rfl := Option.some.inj (hstored.symm.trans hsource)
      cases (hstuck.sealForPeer_refused hrefused _ env).symm.trans seals.sealed
    · cases hnone.symm.trans hstored
  | append before _ ih ih' =>
    obtain rfl := ih hstored
    exact ih' (before.spares_of_nil.1.trans hstored)

/-- A message is refused for want of an agreement exactly if its session was started with a key that
contributes nothing, on whatever bytes the session has been since. So in a life that began without
sessions, where each was started by us or with a key that has been brought, an envelope is refused
only by the store, or for a key of a bundle, if the sessions with the listed devices can be answered
and have room; and if one of them cannot be answered, the envelope is not sealed. -/
theorem answers_by_first_key (hS : S.RefusesByPublicKey) :
    (∀ first s, Session.Reached S first s → ∀ plaintext env,
      (∃ cause, (s.sealMessage S plaintext env).1 = .error (.crypto cause)) ↔
        ∃ their, first = some their ∧ ¬ S.Contributes their) ∧
    ∀ state : Device.State σ, (∀ other, state.records.session other = none) →
      (∀ b, state.records.current = some b → b.identity.hasPrivate = true) →
      ∀ peer events d recipients plaintext,
      let x := (begin state).run S peer events
      let listed := recipients.flatMap x.records.devices
      x.device = some d →
        (∀ other session, x.records.session other = some session →
          GoesBack S events d.id other session) ∧
        ((∀ other ∈ listed, other ≠ d.id → ∀ session, x.records.session other = some session →
            session.Answerable S) →
          (∀ other ∈ listed, other ≠ d.id → listed.count other ≤ x.records.room other) →
          Device.GoesThrough (Device.Blamed S d x.records listed)
            (d.encrypt S recipients plaintext) x.state fun _ _ => True) ∧
        ∀ other ∈ listed, other ≠ d.id → ∀ session, x.records.session other = some session →
          ¬ session.Answerable S → ∀ e s', d.encrypt S recipients plaintext x.state ≠ (.ok e, s') := by
  refine ⟨fun first s hreached => hreached.sealMessage_refused_iff hS, ?_⟩
  intro state hnew hown peer events d recipients plaintext x listed hdevice
  have hknown : x.Known S events := known_run hnew hown events
  have hback (other : DeviceId) (session : Session)
      (hsession : x.records.session other = some session) :
      GoesBack S events d.id other session := by
    obtain ⟨d', hd', hback⟩ := hknown.sessions other session hsession
    obtain rfl := Option.some.inj (hdevice.symm.trans hd')
    exact hback
  refine ⟨hback, fun hanswers hroom => ?_, ?_⟩
  · obtain ⟨own, hcurrent, -⟩ := hknown.device d hdevice
    exact Device.encrypt_goesThrough hcurrent (hknown.own own hcurrent) rfl
      (servesAll_of_answerable hS hanswers hroom)
  · intro other hlisted hother session hsession hno e s' hsealed
    obtain ⟨first, hreached, -⟩ := hback other session hsession
    -- such a session has never left the key that it was started with, and seals nothing under it
    obtain ⟨their, hrefused, hstuck⟩ := hreached.exists_stuck hS hno
    have htells := Device.encrypt_tells S d recipients plaintext other x.state
    rw [hsealed] at htells
    exact Device.addressed_ne_nil hsealed hlisted hother (Records.reaches_of_session hsession)
      (nothing_sealed hrefused htells.1 hsession hstuck)

open Correspondent (alice bob)

/-- What Alice writes to Bob first, under a ratchet key of which she has only the public half. -/
def letterUnder (ratchet : Key) : Except DeviceError Wire.Envelope :=
  let replaced (s : Session) : Session := { s with ratchet := some (.ofPublic ratchet) }
  let (_, state) := alice.device.encrypt .plainNonzero ["bob"] [1] alice.state
  let sessions := ⟨state.store.sessions.entries.map fun (peer, s) => (peer, replaced s)⟩
  let state := { state with store := { state.store with sessions } }
  (alice.device.encrypt .plainNonzero ["bob"] [2] state).1

/-- Bob is started and reads a letter. -/
def reads (letter : Wire.Envelope) : List Event :=
  [.start Correspondent.twoKeys (Correspondent.stepping 5), .decrypt letter]

/-- Bob's life until he has read a letter. -/
def bobReads (letter : Wire.Envelope) : Lifetime Memory :=
  (begin bob.state).run .plainNonzero alice.device.id (reads letter)

/-- Bob has no session before he is started. -/
theorem session_bob (other : DeviceId) : bob.state.records.session other = none := by
  have hempty : bob.state.store.sessions = ⟨[]⟩ := by decide +kernel
  have hstored (s : Device.State Memory) : s.records.session = s.store.sessions.get? := rfl
  rw [hstored, hempty, Table.get?_empty]

theorem hasPrivate_bob : ∀ b ∈ bob.state.records.current, b.identity.hasPrivate = true := by
  decide +kernel

/-- Bob reads a letter under the key nine, and a session is left for it. -/
theorem bobReads_nine : ∃ letter, letterUnder (.ofNatLE 32 9) = .ok letter ∧
    (∀ entry ∈ letter.entryFor bob.device.id,
      firstKey entry ≠ some (Octets.replicate 32 0).bytes) ∧
    (bobReads letter).device = some bob.device ∧
    ∀ other ∈ ["alice"].flatMap (bobReads letter).records.devices,
      ((bobReads letter).records.session other).isSome ∧
      (["alice"].flatMap (bobReads letter).records.devices).count other ≤
        (bobReads letter).records.room other := by
  decide +kernel

/-- Bob reads a letter under the key zero as well, but what is left does not seal. -/
theorem bobReads_zero : ∃ letter, letterUnder (.replicate 32 0) = .ok letter ∧
    (bobReads letter).device = some bob.device ∧ (bobReads letter).decrypted.length = 1 ∧
    alice.device.id ∈ ["alice"].flatMap (bobReads letter).records.devices ∧
    ∃ session ∈ (bobReads letter).records.session alice.device.id,
      (session.sealMessage .plainNonzero [3] (Correspondent.stepping 5)).1 =
        .error (.crypto .nonContributory) := by
  decide +kernel

/-- Bob reads a letter under any ratchet key. He answers one under a key that contributes, and never
one under the key zero. -/
theorem answers_by_first_key_bob :
    (∃ letter, letterUnder (.ofNatLE 32 9) = .ok letter ∧
      ∃ e s', bob.device.encrypt .plainNonzero ["alice"] [3] (bobReads letter).state = (.ok e, s')) ∧
    ∃ letter, letterUnder (.replicate 32 0) = .ok letter ∧ (bobReads letter).decrypted.length = 1 ∧
      ∀ e s', bob.device.encrypt .plainNonzero ["alice"] [3] (bobReads letter).state ≠ (.ok e, s') := by
  obtain ⟨hsession, hlife⟩ := answers_by_first_key (σ := Memory) Suite.plainNonzero_refusesByPublicKey
  constructor
  · obtain ⟨letter, hletter, hkey, hdevice, hlisted⟩ := bobReads_nine
    refine ⟨letter, hletter, ?_⟩
    have hx := hlife bob.state session_bob hasPrivate_bob alice.device.id (reads letter) bob.device
      ["alice"] [3]
    rw [← bobReads] at hx
    generalize bobReads letter = x at hx hdevice hlisted ⊢
    obtain ⟨hback, hanswers, -⟩ := hx hdevice
    have hbrings (other : DeviceId) (their : Key)
        (h : Brings (reads letter) bob.device.id other their) :
        Suite.plainNonzero.Contributes their := by
      refine Suite.plainNonzero_contributes ?_
      rintro rfl
      obtain ⟨e, entry, hevent, -, hentry, hbytes⟩ := h
      obtain rfl : e = letter := by simpa [reads] using hevent
      exact hkey entry hentry hbytes
    rcases hanswers (fun other _ _ session hsession => (hback other session hsession).answerable
        (hbrings other)) fun other hother _ => (hlisted other hother).2 with
      ⟨e, s', hok, -⟩ | ⟨hno, -⟩ | ⟨⟨other, bundle, hother, -, hnone, -⟩, -⟩
    · exact ⟨e, s', hok⟩
    · exact absurd trivial hno
    · have hsome := (hlisted other hother).1
      rw [hnone] at hsome
      exact absurd hsome Bool.false_ne_true
  · obtain ⟨letter, hletter, hdevice, hlength, hlisted, session, hstored, hrefused⟩ := bobReads_zero
    refine ⟨letter, hletter, hlength, ?_⟩
    have hx := hlife bob.state session_bob hasPrivate_bob alice.device.id (reads letter) bob.device
      ["alice"] [3]
    rw [← bobReads] at hx
    have hother : alice.device.id ≠ bob.device.id := Correspondent.plainBundle_device_ne
    generalize bobReads letter = x at hx hdevice hlisted hstored ⊢
    refine (hx hdevice).2.2 alice.device.id hlisted hother session hstored ?_
    rintro ⟨first, hreached, hfirst⟩
    obtain ⟨their, hsome, hno⟩ := (hsession first session hreached [3] _).mp ⟨_, hrefused⟩
    exact hno (hfirst their hsome)

/-- The session that a handshake with the key zero starts is established, and never sends. -/
theorem refused_after_zero :
    ∃ s, Session.Starts .standard (some (.replicate 32 0)) s ∧ s.isEstablished = true ∧
      ∀ plaintext env,
        (s.sealMessage .standard plaintext env).1 = .error (.crypto .nonContributory) := by
  obtain ⟨s, hs⟩ : ∃ s, Session.responder .standard [] (.replicate 32 0 : Key).bytes = .ok s := by
    rw [Session.responder, Key.parse_bytes]
    exact ⟨_, rfl⟩
  have hstuck := (Session.Starts.responder hs).reached.stuck Suite.sharedSecret_standard_zero
  refine ⟨s, .responder hs, ?_, hstuck.sealMessage_refused Suite.sharedSecret_standard_zero⟩
  rw [Session.isEstablished, hstuck.theirRatchet, Option.isSome_some]

end Lifetime

end EndToEnd

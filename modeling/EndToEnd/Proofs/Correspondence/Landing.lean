import EndToEnd.Proofs.Correspondence.Flight

/-!
# A flight lands

The envelopes of a flight reach their reader in any order, each any number of times, while anything
else happens to the reader in between. All of them name one one-time key. Whichever is read first
starts the session that answers the meeting and uses that key up, whatever its position, and the keys
of the positions before it are kept. The key is not held after that, so all others continue the
session, each from its kept key or at its place in the chain. Answers that the reader writes in
between, and whatever others send it, leave what the session receives with as it is.

This is on a store that refuses nothing, as long as no letter is too far ahead, no kept key is dropped
for its age or because there are too many, and no letter's authenticator is that of another position.

Main statements:

- `Landed.founds`, `Landed.continues`, `Landed.refuses`: what becomes of an envelope that arrives
  first, later, and once more;
- `Landed.step`: what everything that can happen to the reader leaves of what it has read;
- `flight_any_order`: every envelope is read once, in any order.
-/

namespace EndToEnd.Lifetime

open Session (Caught Distinguished)
open Device (OpensWith Unlocks UsesUp)

variable {σ : Type} [Store σ] [LawfulStore σ] {S : Suite} {m : Meeting} {writer : DeviceId}
  {own : Bundle} {high : Nat} {posts : List Post} {letters read : List Letter} {l : Letter}
  {p : Post} {d : Device} {x : Lifetime σ}

/-! ## What is asked of the reader -/

/-- The session that the next letter of a flight is read with: until one was read the session that
answers the meeting, and then the stored one. -/
def readsWith (S : Suite) (m : Meeting) (writer : DeviceId) (x : Lifetime σ) : Option Session :=
  if x.decrypted = [] then some (m.responder S) else x.records.session writer

/-- The reader can read a letter: it holds the one-time key if it has read none before, the letter is
not too far ahead, and no key that is kept is dropped, for its age or because there are too many. -/
def Admits (S : Suite) (m : Meeting) (writer : DeviceId) (x : Lifetime σ) (l : Letter) : Prop :=
  ∀ d ∈ x.device, ∀ s ∈ x.readsWith S m writer,
    (x.decrypted = [] → ∃ own ∈ x.records.current, (own.find? m.theirOneTime.bytes).isSome) ∧
    l.index.toNat ≤ s.receiveIndex.toNat + d.config.maxSkip ∧
    (∀ k ∈ s.skipped, k.isFresh x.state.env.clock d.config.maxAge = true) ∧
    s.skipped.length + (l.index.toNat - s.receiveIndex.toNat) ≤ d.config.maxSkippedKeys

instance : Decidable (Admits S m writer x l) :=
  inferInstanceAs (Decidable (∀ d ∈ x.device, ∀ s ∈ x.readsWith S m writer, _))

/-- The keys of a meeting agree with those of our bundle. -/
def Agrees (S : Suite) (m : Meeting) (x : Lifetime σ) : Prop :=
  ∀ own ∈ x.records.current, ∀ p ∈ [m.identity, m.ephemeral], ∀ q ∈ own.pairs, p.AgreesWith S q

/-- A flight to the owner of a bundle, whose letters are told apart by their authenticators. -/
structure Bound (S : Suite) (m : Meeting) (writer : DeviceId) (own : Bundle) (high : Nat)
    (posts : List Post) (letters : List Letter) : Prop where
  cipher : S.CipherUndoes
  made : m.MadeWith S own.identity.publicKey
  flight : IsFlight S m writer own.device high posts letters
  distinguished : ∀ l ∈ letters, Distinguished S (m.responder S) (m.chain S) 0 high l

/-! ## What becomes of an envelope -/

/-- A letter starts a session: its reader makes the agreements of the owner of the one-time key, the
session that answers them opens the letter and is saved, and the one-time key is used up. -/
def Founds (S : Suite) (m : Meeting) (writer : DeviceId) (d : Device) (l : Letter)
    (s s' : Device.State σ) : Prop :=
  ∃ own oneTime secret session bodyKey after env, s.records.current = some own ∧
    own.find? m.theirOneTime.bytes = some oneTime ∧
    Handshake.responderSecret S own.identity oneTime m.identity.publicKey.bytes
      m.ephemeral.publicKey.bytes = .ok secret ∧
    Session.responder S secret m.ratchet.publicKey.bytes = .ok session ∧
    session.openMessage S d.config s.env.clock l.payload true = .ok (bodyKey, after) ∧
    let left := ((own.erase m.theirOneTime.bytes).replenish S d.config.oneTimeKeys env).2.1
    s'.records = (s.records.withSession writer after).withCurrent left ∧
      left.find? m.theirOneTime.bytes = none

/-- A letter continues the stored session, which receives on the first chain of the meeting, although
the one-time key that it names is not held. -/
def Continues (S : Suite) (m : Meeting) (writer : DeviceId) (d : Device) (l : Letter)
    (s s' : Device.State σ) : Prop :=
  ∃ own session bodyKey after, s.records.current = some own ∧
    own.find? m.theirOneTime.bytes = none ∧ s.records.session writer = some session ∧
    Session.Receives S session m.ratchet.publicKey (m.chain S) ∧
    session.openMessage S d.config s.env.clock l.payload true = .ok (bodyKey, after) ∧
    s'.records = s.records.withSession writer after

/-- What becomes of an envelope of a flight: the first one that is read starts the session, each other
one is read with it once, and it is refused afterwards, with nothing changed. -/
structure Lands (S : Suite) (m : Meeting) (writer : DeviceId) (x : Lifetime σ) (d : Device)
    (p : Post) (l : Letter) : Prop where
  first : x.decrypted = [] → ∃ s, d.decrypt S p.envelope x.state = (.ok p.plaintext, s) ∧
    Founds S m writer d l x.state s
  later : x.decrypted ≠ [] → l.payload ∉ x.decrypted →
    ∃ s, d.decrypt S p.envelope x.state = (.ok p.plaintext, s) ∧ Continues S m writer d l x.state s
  again : l.payload ∈ x.decrypted → ∃ cause s,
    d.decrypt S p.envelope x.state = (.error cause, s) ∧ s.records = x.records

/-- Some letters of a flight have been read. If any, the one-time key is used up, and the session with
their writer has caught up with them. -/
structure Landed (S : Suite) (m : Meeting) (writer : DeviceId) (own : Bundle)
    (letters read : List Letter) (x : Lifetime σ) : Prop where
  healthy : x.state.Healthy
  notes : x.Notes
  owned : x.Owned own
  drawn : ∀ l ∈ read, l ∈ letters
  decrypted : x.decrypted = read.map (·.payload)
  caught : read ≠ [] → x.UsedUp m.theirOneTime.bytes ∧ ∃ s, x.records.session writer = some s ∧
    Caught S (m.responder S) m.ratchet.publicKey (m.chain S) true 0 (read.map (·.index.toNat)) s

/-- Nothing was decrypted if nothing was read. -/
theorem Landed.decrypted_eq_nil (h : Landed S m writer own letters read x) :
    x.decrypted = [] ↔ read = [] := by
  rw [h.decrypted, List.map_eq_nil_iff]

/-- The session that the next letter is read with has caught up with those before it. -/
theorem Landed.exists_readsWith (h : Landed S m writer own letters read x) :
    ∃ s, x.readsWith S m writer = some s ∧ s.receiveIndex.toNat = past 0 (read.map (·.index.toNat)) ∧
      Caught S (m.responder S) m.ratchet.publicKey (m.chain S) true 0
        (read.map (·.index.toNat)) s := by
  rw [readsWith]
  by_cases hread : read = []
  · rw [if_pos (h.decrypted_eq_nil.mpr hread), hread]
    have hstart : Session.Receives S (m.responder S) m.ratchet.publicKey (m.chain S) := ⟨rfl, rfl⟩
    exact ⟨m.responder S, rfl, rfl,
      .start (Session.reached_eq_ok.mpr (.inl ⟨.inr rfl, rfl⟩)) hstart rfl⟩
  · obtain ⟨-, s, hs, hcaught⟩ := h.caught hread
    rw [if_neg (mt h.decrypted_eq_nil.mp hread)]
    exact ⟨s, hs, (hcaught.receiveIndex (mt List.map_eq_nil_iff.mp hread)).2, hcaught⟩

/-- Once a letter was read, the session with the writer receives on the first chain. -/
theorem Landed.receives (h : Landed S m writer own letters read x) (hread : read ≠ [])
    {s : Session} (hs : x.records.session writer = some s) :
    Session.Receives S s m.ratchet.publicKey (m.chain S) := by
  obtain ⟨-, s', hs', hcaught⟩ := h.caught hread
  obtain rfl := Option.some.inj (hs.symm.trans hs')
  exact (hcaught.receiveIndex (mt List.map_eq_nil_iff.mp hread)).1

section Arriving

variable (hbound : Bound S m writer own high posts letters)
  (h : Landed S m writer own letters read x) (hl : l ∈ letters)
include hbound h

/-- No letter that was read is behind the last position of the flight. -/
theorem Landed.past_le : past 0 (read.map (·.index.toNat)) ≤ high := by
  refine EndToEnd.past_le (Nat.zero_le _) fun i hi => ?_
  obtain ⟨l, hl, rfl⟩ := List.mem_map.mp hi
  exact (hbound.flight.letter (h.drawn l hl)).2.2

include hl

/-- A letter was decrypted if it was read. -/
theorem Landed.mem_decrypted : l.payload ∈ x.decrypted ↔ l ∈ read := by
  rw [h.decrypted]
  refine ⟨fun hin => ?_, List.mem_map_of_mem⟩
  obtain ⟨l', hl', hsame⟩ := List.mem_map.mp hin
  exact hbound.flight.eq_of_payload (h.drawn l' hl') hl hsame ▸ hl'

/-- The position of a letter was read if the letter was. -/
theorem Landed.mem_positions : l.index.toNat ∈ read.map (·.index.toNat) ↔ l ∈ read := by
  refine ⟨fun hin => ?_, List.mem_map_of_mem⟩
  obtain ⟨l', hl', hsame⟩ := List.mem_map.mp hin
  exact hbound.flight.eq_of_position (h.drawn l' hl') hl hsame ▸ hl'

/-- A letter that was not read before is opened, and the session catches up with it. -/
theorem Landed.opens (hnew : l ∉ read) (hdevice : x.device = some d)
    (hadmits : x.Admits S m writer l) :
    ∃ s after, x.readsWith S m writer = some s ∧
      s.openMessage S d.config x.state.env.clock l.payload true = .ok (l.plaintext, after) ∧
      Caught S (m.responder S) m.ratchet.publicKey (m.chain S) true 0
        ((read ++ [l]).map (·.index.toNat)) after := by
  obtain ⟨s, hs, hindex, hcaught⟩ := h.exists_readsWith
  obtain ⟨-, hgap, hfresh, hroom⟩ := hadmits d hdevice s hs
  obtain ⟨hsealed, hhandshake, -⟩ := hbound.flight.letter hl
  rw [hindex] at hgap hroom
  have hfull : s.skipped.length ≤ d.config.maxSkippedKeys := Nat.le_of_add_right_le hroom
  -- What one more position passes over is what the reader has room for.
  have hpassed : (m.responder S).skipped.length +
      (passedOver 0 (read.map (·.index.toNat) ++ [l.index.toNat])).length ≤
        d.config.maxSkippedKeys := by
    have hkept := hcaught.length_skipped
    have hone : (passedOver 0 (read.map (·.index.toNat) ++ [l.index.toNat])).length ≤ _ :=
      length_passedOver_concat (Nat.zero_le _)
    omega
  obtain ⟨⟨hopened, -⟩, hcaught', -⟩ := hcaught.arrives (a := ⟨x.state.env.clock, l⟩) hbound.cipher
    hsealed hhandshake (Nat.zero_le _) hgap hfresh hfull hpassed (hbound.distinguished l hl)
    (h.past_le hbound)
  obtain ⟨after, hopened⟩ := hopened (mt (h.mem_positions hbound hl).mp hnew)
  rw [Session.arrive, hopened] at hcaught'
  rw [Session.Arrival.opened, hhandshake] at hopened
  refine ⟨s, after, hs, hopened, ?_⟩
  rw [List.map_append]
  exact hcaught'

/-- A letter that was read before is refused, whenever it comes. -/
theorem Landed.closed (hseen : l ∈ read) :
    ∃ s, x.records.session writer = some s ∧ ∀ now,
      ∃ cause, s.openMessage S d.config now l.payload true = .error cause := by
  obtain ⟨-, s, hs, hcaught⟩ := h.caught (List.ne_nil_of_mem hseen)
  obtain ⟨hsealed, hhandshake, -⟩ := hbound.flight.letter hl
  refine ⟨s, hs, fun now => ?_⟩
  rw [← hhandshake]
  exact hcaught.again d.config now hsealed hhandshake ((h.mem_positions hbound hl).mpr hseen)
    (hbound.distinguished l hl) (h.past_le hbound)

variable (hholds : p.Holds S m writer own.device l) (hdevice : x.device = some d)
include hholds hdevice

/-- Once a letter was read, the next is opened with the stored session: the one-time key is not
held. -/
theorem Landed.opensWith (hread : read ≠ []) {s : Session}
    (hs : x.records.session writer = some s) :
    ∃ entry current, p.envelope.entryFor d.id = some entry ∧ entry.isHandshake = true ∧
      x.records.current = some current ∧ current.find? m.theirOneTime.bytes = none ∧
      OpensWith S d x.records p.envelope.sender entry ⟨s, l.payload, none⟩ := by
  obtain ⟨husedUp, -⟩ := h.caught hread
  obtain ⟨current, hcurrent, -⟩ := h.owned.current
  obtain ⟨entry, hentry, hhandshake, -⟩ :=
    hholds.exists_entry (hbound.flight.letter hl).2.1
  have hnone : current.find? m.theirOneTime.bytes = none := husedUp.find?_eq_none hcurrent
  refine ⟨entry, current, ?_, hhandshake, hcurrent, hnone, ?_⟩
  · rw [h.owned.device d hdevice]
    exact hentry
  · exact hholds.opensWith_stored hentry hs fun _ => ⟨current, hcurrent, hnone⟩

/-- As long as its one-time key is held, a letter is opened with the session that answers the
meeting. -/
theorem Landed.opensWith_first (hagrees : x.Agrees S m) {current : Bundle} {oneTime : KeyPair}
    (hcurrent : x.records.current = some current)
    (hheld : current.find? m.theirOneTime.bytes = some oneTime) :
    Handshake.responderSecret S current.identity oneTime m.identity.publicKey.bytes
        m.ephemeral.publicKey.bytes = .ok m.secret ∧
      ∃ entry bundle, p.envelope.entryFor d.id = some entry ∧ entry.isHandshake = true ∧
        Wire.HandshakeMessage.decode entry.key = .ok (m.message l.payload) ∧
        OpensWith S d x.records p.envelope.sender entry
          ⟨m.responder S, l.payload, some bundle⟩ := by
  obtain ⟨hpublic, hmem⟩ := Bundle.find?_eq_some hheld
  obtain ⟨current', hcurrent', -, hidentity⟩ := h.owned.current
  obtain rfl := Option.some.inj (hcurrent'.symm.trans hcurrent)
  have hagreed : Handshake.responderSecret S current'.identity oneTime m.identity.publicKey.bytes
      m.ephemeral.publicKey.bytes = .ok m.secret := by
    refine Meeting.MadeWith.agreed (hidentity ▸ hbound.made) hpublic fun q hq r hr =>
      hagrees current' hcurrent' q hq r ?_
    rcases List.mem_pair.mp hr with rfl | rfl
    · exact List.mem_cons_self
    · exact List.mem_cons_of_mem _ hmem
  have hflag := (hbound.flight.letter hl).2.1
  obtain ⟨entry, hentry, hhandshake, hdecode, -⟩ := hholds.exists_entry hflag
  obtain ⟨-, hopens⟩ := hholds.opensWith_fresh (d := d) (r := x.records) hentry hflag hcurrent
    hheld hagreed x.state.env
  refine ⟨hagreed, entry, _, ?_, hhandshake, hdecode, hopens⟩
  rw [h.owned.device d hdevice]
  exact hentry

/-- What a decrypted envelope leaves, if the session has caught up with its letter and the one-time
key is used up. -/
theorem Landed.next {s : Device.State σ} {after : Session}
    (hdecrypt : d.decrypt S p.envelope x.state = (.ok p.plaintext, s))
    (husedUp : (x.step S writer (.decrypt p.envelope)).UsedUp m.theirOneTime.bytes)
    (hafter : s.records.session writer = some after)
    (hcaught : Caught S (m.responder S) m.ratchet.publicKey (m.chain S) true 0
      ((read ++ [l]).map (·.index.toNat)) after) :
    Landed S m writer own letters (read ++ [l]) (x.step S writer (.decrypt p.envelope)) := by
  obtain ⟨hstate, hdecrypted⟩ := step_decrypt writer hdevice hdecrypt
  obtain ⟨entry, hentry, -, -, hmessage⟩ := hholds.exists_entry (hbound.flight.letter hl).2.1
  have hbrought : brought writer d p.envelope = [l.payload] := by
    rw [brought, if_pos hholds.sender, h.owned.device d hdevice, hentry, Option.bind_some, hmessage]
    rfl
  refine ⟨healthy_step h.healthy _, h.notes.step _, h.owned.step _, fun l' hl' => ?_, ?_, fun _ =>
    ⟨husedUp, after, ?_, hcaught⟩⟩
  · rcases List.mem_append.mp hl' with hl' | hl'
    · exact h.drawn l' hl'
    · exact List.mem_singleton.mp hl' ▸ hl
  · rw [hdecrypted, hbrought, h.decrypted, List.map_append, List.map_singleton]
  · rw [records, hstate]
    exact hafter

/-- A letter that was read before is refused, and nothing changes. -/
theorem Landed.refuses (hseen : l ∈ read)
    (hdistinct : (x.step S writer (.decrypt p.envelope)).oneTimeKeys.Nodup) :
    (∃ cause s, d.decrypt S p.envelope x.state = (.error cause, s) ∧ s.records = x.records) ∧
      Landed S m writer own letters read (x.step S writer (.decrypt p.envelope)) := by
  obtain ⟨session, hs, hrefused⟩ := h.closed (d := d) hbound hl hseen
  have hread : read ≠ [] := List.ne_nil_of_mem hseen
  obtain ⟨entry, -, hentry, hhandshake, -, -, hopens⟩ :=
    h.opensWith hbound hl hholds hdevice hread hs
  obtain ⟨refusal, s, hdecrypt, hkeeps, -⟩ := hopens.decrypt_refused (P := fun _ => True)
    hentry fun now => by
      obtain ⟨cause, hcause⟩ := hrefused now
      exact ⟨cause, trivial, hhandshake ▸ hcause⟩
  obtain ⟨hstate, hdecrypted⟩ := step_refused writer hdevice hdecrypt
  refine ⟨⟨refusal, s, hdecrypt, hkeeps.1⟩, healthy_step h.healthy _, h.notes.step _,
    h.owned.step _, h.drawn, hdecrypted.trans h.decrypted, fun hread => ?_⟩
  obtain ⟨husedUp, session, hs, hcaught⟩ := h.caught hread
  refine ⟨husedUp.step hdistinct, session, ?_, hcaught⟩
  rw [records, hstate, hkeeps.1]
  exact hs

variable (hnew : l ∉ read) (hadmits : x.Admits S m writer l)
  (hdistinct : (x.step S writer (.decrypt p.envelope)).oneTimeKeys.Nodup)
include hnew hadmits hdistinct

/-- A letter that is not the first one to be read continues the stored session. -/
theorem Landed.continues (hread : read ≠ []) :
    (∃ s, d.decrypt S p.envelope x.state = (.ok p.plaintext, s) ∧
      Continues S m writer d l x.state s) ∧
    Landed S m writer own letters (read ++ [l]) (x.step S writer (.decrypt p.envelope)) := by
  obtain ⟨session, after, hsession, hopened, hcaught⟩ := h.opens hbound hl hnew hdevice hadmits
  rw [readsWith, if_neg (mt h.decrypted_eq_nil.mp hread)] at hsession
  obtain ⟨entry, current, hentry, hhandshake, hcurrent, hnone, hopens⟩ :=
    h.opensWith hbound hl hholds hdevice hread hsession
  have hunlocks : Unlocks S d x.state.records p.envelope entry ⟨session, l.payload, none⟩
      x.state.env.clock l.plaintext after := by
    refine ⟨hentry, hopens, ?_⟩
    rw [hhandshake]
    exact hopened
  obtain ⟨opening, s, hdecrypt, -, hbundle, hrecords⟩ :=
    hunlocks.decrypts h.healthy (hholds.decrypts hbound.cipher)
  rw [Device.Opening.saved, hbundle.mpr rfl, hholds.sender] at hrecords
  refine ⟨⟨s, hdecrypt, current, session, l.plaintext, after, hcurrent, hnone, hsession,
    h.receives hread hsession, hopened, hrecords⟩, h.next hbound hl hholds hdevice hdecrypt ?_ ?_ hcaught⟩
  · exact (h.caught hread).1.step hdistinct
  · rw [hrecords]
    exact Function.update_self _ _ _

/-- The first letter to be read starts the session that answers the meeting, and the one-time key is
used up. -/
theorem Landed.founds (hagrees : x.Agrees S m) (hread : read = []) :
    (∃ s, d.decrypt S p.envelope x.state = (.ok p.plaintext, s) ∧
      Founds S m writer d l x.state s) ∧
    Landed S m writer own letters (read ++ [l]) (x.step S writer (.decrypt p.envelope)) := by
  have hnil : x.decrypted = [] := h.decrypted_eq_nil.mpr hread
  obtain ⟨session, after, hsession, hopened, hcaught⟩ := h.opens hbound hl hnew hdevice hadmits
  obtain ⟨hheld, -⟩ := hadmits d hdevice session hsession
  rw [readsWith, if_pos hnil] at hsession
  obtain rfl := Option.some.inj hsession
  obtain ⟨current, hcurrent, hheld⟩ := hheld hnil
  obtain ⟨oneTime, hfind⟩ := Option.isSome_iff_exists.mp hheld
  obtain ⟨hagreed, entry, bundle, hentry, hhandshake, hdecode, hopens⟩ :=
    h.opensWith_first hbound hl hholds hdevice hagrees hcurrent hfind
  have hunlocks : Unlocks S d x.state.records p.envelope entry ⟨m.responder S, l.payload,
      some bundle⟩ x.state.env.clock l.plaintext after := by
    refine ⟨hentry, hopens, ?_⟩
    rw [hhandshake]
    exact hopened
  obtain ⟨opening, s, hdecrypt, hopens', hbundle, hrecords⟩ :=
    hunlocks.decrypts h.healthy (hholds.decrypts hbound.cipher)
  rcases hopens'.usesUp_cases with ⟨hnone, -⟩ | ⟨current', name, env, huses, hstored⟩
  · cases hbundle.mp hnone
  obtain rfl := Option.some.inj (huses.current.symm.trans hcurrent)
  obtain ⟨m', hdecode', rfl⟩ := huses.named
  obtain rfl := Except.ok.inj (hdecode.symm.trans hdecode')
  rw [Device.Opening.saved, hstored, hholds.sender] at hrecords
  -- The one-time key that the letter names is not held any more.
  obtain ⟨hstate, -⟩ := step_decrypt writer hdevice hdecrypt
  have hleft : (x.step S writer (.decrypt p.envelope)).records.current =
      some ((current'.erase m.theirOneTime.bytes).replenish S d.config.oneTimeKeys env).2.1 := by
    rw [records, hstate, hrecords]
    rfl
  have husedUp := h.notes.usedUp_step huses hleft hdistinct
  refine ⟨⟨s, hdecrypt, current', oneTime, m.secret, m.responder S, l.plaintext, after, env,
    hcurrent, hfind, hagreed, m.responder_eq S, hopened, hrecords, husedUp.find?_eq_none hleft⟩,
    h.next hbound hl hholds hdevice hdecrypt husedUp ?_ hcaught⟩
  rw [hrecords]
  exact Function.update_self _ _ _

omit hl hholds hnew hadmits

/-- What becomes of an envelope of the flight that reaches the reader. -/
theorem Landed.lands (hp : p ∈ posts) (hagrees : x.Agrees S m)
    (hadmits : ∀ l ∈ p.letter? S m own.device, l.payload ∉ x.decrypted → x.Admits S m writer l) :
    (∃ l, p.letter? S m own.device = some l ∧ Lands S m writer x d p l) ∧
      ∃ read', Landed S m writer own letters read' (x.step S writer (.decrypt p.envelope)) := by
  obtain ⟨l, hl, hholds⟩ := hbound.flight.exists_letter hp
  have hletter := hholds.letter?_eq (hbound.flight.letter hl).2.1
  have hdecrypted := h.mem_decrypted hbound hl
  by_cases hseen : l ∈ read
  · have hsome : x.decrypted ≠ [] := List.ne_nil_of_mem (hdecrypted.mpr hseen)
    obtain ⟨hrefused, hlanded⟩ := h.refuses hbound hl hholds hdevice hseen hdistinct
    exact ⟨⟨l, hletter, fun hnil => absurd hnil hsome,
      fun _ hnew => absurd (hdecrypted.mpr hseen) hnew, fun _ => hrefused⟩, read, hlanded⟩
  have hnew : l.payload ∉ x.decrypted := mt hdecrypted.mp hseen
  have hadmits := hadmits l hletter hnew
  by_cases hread : read = []
  · obtain ⟨hfounds, hlanded⟩ :=
      h.founds hbound hl hholds hdevice hseen hadmits hdistinct hagrees hread
    exact ⟨⟨l, hletter, fun _ => hfounds,
      fun hsome => absurd (h.decrypted_eq_nil.mpr hread) hsome, fun hin => absurd hin hnew⟩, _,
      hlanded⟩
  · obtain ⟨hcontinues, hlanded⟩ :=
      h.continues hbound hl hholds hdevice hseen hadmits hdistinct hread
    exact ⟨⟨l, hletter, fun hnil => absurd (h.decrypted_eq_nil.mp hnil) hread,
      fun _ _ => hcontinues, fun hin => absurd hin hnew⟩, _, hlanded⟩

end Arriving

/-! ## Everything that happens to the reader -/

/-- What reads nothing of the writer leaves what the session with it receives with. -/
theorem session_receives {e : Event} {s : Session}
    (he : ∀ envelope, e = .decrypt envelope → envelope.sender ≠ writer)
    (hs : x.records.session writer = some s) :
    ∃ after, (x.step S writer e).records.session writer = some after ∧
      after.theirRatchet = s.theirRatchet ∧ after.receiveChain = s.receiveChain ∧
      after.receiveIndex = s.receiveIndex ∧ after.skipped = s.skipped := by
  have hquiet (hquiet : e.IsQuiet) : (x.step S writer e).records.session writer = some s := by
    rw [session_quiet hquiet]
    exact hs
  cases e with
  | encrypt recipients plaintext =>
    obtain ⟨entries, hseals, -⟩ := Authorship.sealsEach_encrypt S writer x recipients plaintext
    exact hseals.receives hs
  | decrypt e => exact ⟨s, (session_decrypt_of_ne (he e rfl)).trans hs, rfl, rfl, rfl, rfl⟩
  | _ => exact ⟨s, hquiet trivial, rfl, rfl, rfl, rfl⟩

/-- What reads nothing of the writer leaves what was read of it. -/
theorem Landed.keeps (h : Landed S m writer own letters read x) {e : Event}
    (he : ∀ envelope, e = .decrypt envelope → envelope.sender ≠ writer)
    (hdistinct : (x.step S writer e).oneTimeKeys.Nodup) :
    Landed S m writer own letters read (x.step S writer e) := by
  refine ⟨healthy_step h.healthy e, h.notes.step e, h.owned.step e, h.drawn,
    (decrypted_step he).trans h.decrypted, fun hread => ?_⟩
  obtain ⟨husedUp, s, hs, hcaught⟩ := h.caught hread
  obtain ⟨after, hafter, hratchet, hchain, hindex, hskipped⟩ := session_receives (S := S) he hs
  exact ⟨husedUp.step hdistinct, after, hafter,
    hcaught.of_frame (mt List.map_eq_nil_iff.mp hread) hratchet hchain hindex hskipped⟩

/-- Whatever happens to the reader, it has read letters of the flight, as long as that is all that the
writer sends it. -/
theorem Landed.step (hbound : Bound S m writer own high posts letters)
    (h : Landed S m writer own letters read x) {e : Event} (hagrees : x.Agrees S m)
    (hdistinct : (x.step S writer e).oneTimeKeys.Nodup)
    (hdrawn : ∀ envelope, e = .decrypt envelope → envelope.sender = writer →
      ∃ p ∈ posts, p.envelope = envelope ∧ ∀ l ∈ p.letter? S m own.device,
        l.payload ∉ x.decrypted → x.Admits S m writer l) :
    ∃ read', Landed S m writer own letters read' (x.step S writer e) := by
  by_cases hsent : ∃ envelope, e = .decrypt envelope ∧ envelope.sender = writer
  · obtain ⟨envelope, rfl, hsender⟩ := hsent
    obtain ⟨p, hp, rfl, hadmits⟩ := hdrawn envelope rfl hsender
    cases hdevice : x.device with
    | none =>
      have hsame : x.step S writer (.decrypt p.envelope) = x := by rw [Lifetime.step, hdevice]
      exact ⟨read, hsame.symm ▸ h⟩
    | some d => exact (h.lands hbound hdevice hdistinct hp hagrees hadmits).2
  · exact ⟨read, h.keeps (fun envelope he hsender => hsent ⟨envelope, he, hsender⟩) hdistinct⟩

/-- What is asked of the reader of a flight and of what happens to it: its store refuses nothing, no
one-time key is generated twice, the keys of its bundle agree with those of the meeting, the writer
sends it the envelopes of the flight and nothing else, it can read each of them the first time, and
the letters are told apart by their authenticators. -/
structure Welcomes (S : Suite) (m : Meeting) (writer : DeviceId) (own : Bundle) (high : Nat)
    (posts : List Post) (state : Device.State σ) (events : List Event) : Prop where
  healthy : state.Healthy
  current : state.records.current = some own
  oneTimeKeys : ((begin state).run S writer events).oneTimeKeys.Nodup
  agrees : ∀ n, ((begin state).run S writer (events.take n)).Agrees S m
  drawn : ∀ e, .decrypt e ∈ events → e.sender = writer → ∃ p ∈ posts, p.envelope = e
  admits : ∀ n, ∀ p ∈ posts, events[n]? = some (.decrypt p.envelope) →
    ∀ l ∈ p.letter? S m own.device,
      l.payload ∉ ((begin state).run S writer (events.take n)).decrypted →
        ((begin state).run S writer (events.take n)).Admits S m writer l
  distinguished : ∀ l ∈ Post.lettersFor S m own.device posts,
    Distinguished S (m.responder S) (m.chain S) 0 high l

section Welcoming

variable {state : Device.State σ} {events : List Event}
  (hbound : Bound S m writer own high posts letters)
  (h : Welcomes S m writer own high posts state events)
include hbound h

omit hbound in
/-- No one-time key was generated twice before an event, nor by it. -/
theorem Welcomes.oneTimeKeys_take (n : Nat) :
    ((begin state).run S writer (events.take n)).oneTimeKeys.Nodup := by
  have hprefix := oneTimeKeys_prefix_run S writer ((begin state).run S writer (events.take n))
    (events.drop n)
  rw [← run_append, List.take_append_drop] at hprefix
  exact hprefix.sublist.nodup h.oneTimeKeys

/-- Before each event, some letters of the flight have been read. -/
theorem Welcomes.landed_take (n : Nat) :
    ∃ read, Landed S m writer own letters read ((begin state).run S writer (events.take n)) := by
  induction n with
  | zero =>
    exact ⟨[], h.healthy, .refl _, ⟨⟨own, h.current, rfl, rfl⟩, nofun⟩, nofun, rfl,
      fun hread => absurd rfl hread⟩
  | succ n ih =>
    obtain ⟨read, hlanded⟩ := ih
    cases hevent : events[n]? with
    | none =>
      have hlength := List.getElem?_eq_none_iff.mp hevent
      rw [List.take_of_length_le (Nat.le_succ_of_le hlength)]
      rw [List.take_of_length_le hlength] at hlanded
      exact ⟨read, hlanded⟩
    | some e =>
      have hdistinct := h.oneTimeKeys_take (n + 1)
      rw [run_take_succ S writer _ hevent] at hdistinct ⊢
      refine hlanded.step hbound (h.agrees n) hdistinct ?_
      rintro envelope rfl hsender
      obtain ⟨p, hp, rfl⟩ := h.drawn envelope (List.mem_of_getElem? hevent) hsender
      exact ⟨p, hp, rfl, h.admits n p hp hevent⟩

end Welcoming

/-- It is enough to look at the reader before each event, and at the end. -/
theorem Welcomes.of_bounded {state : Device.State σ} {events : List Event}
    (hhealthy : state.Healthy) (hcurrent : state.records.current = some own)
    (hkeys : ((begin state).run S writer events).oneTimeKeys.Nodup)
    (hdrawn : ∀ e, .decrypt e ∈ events → e ∈ posts.map (·.envelope))
    (hagrees : ∀ n ≤ events.length, ((begin state).run S writer (events.take n)).Agrees S m)
    (hletters : ∀ l ∈ Post.lettersFor S m own.device posts,
      Distinguished S (m.responder S) (m.chain S) 0 high l ∧ ∀ n < events.length,
        l.payload ∉ ((begin state).run S writer (events.take n)).decrypted →
          ((begin state).run S writer (events.take n)).Admits S m writer l) :
    Welcomes S m writer own high posts state events := by
  refine ⟨hhealthy, hcurrent, hkeys, fun n => ?_, fun e he _ => List.mem_map.mp (hdrawn e he),
    fun n p hp hevent l hl hnew => ?_, fun l hl => (hletters l hl).1⟩
  · rcases Nat.le_total n events.length with hn | hn
    · exact hagrees n hn
    · have hend := hagrees events.length (Nat.le_refl _)
      rw [List.take_of_length_le (Nat.le_refl _)] at hend
      rw [List.take_of_length_le hn]
      exact hend
  · obtain ⟨hn, -⟩ := List.getElem?_eq_some_iff.mp hevent
    exact (hletters l (List.mem_filterMap.mpr ⟨p, hp, hl⟩)).2 n hn hnew

/-! ## All of the flight -/

/-- Once all letters were read, the keys that are kept are those of the positions that have none. -/
theorem Landed.exists_skipped (h : Landed S m writer own letters read x) (hread : read ≠ [])
    (hevery : ∀ l ∈ letters, l ∈ read) :
    ∃ s, x.records.session writer = some s ∧ s.skipped.map (·.key) =
      (passedOver 0 (letters.map (·.index.toNat))).map (messageKeyAt S (m.chain S)) := by
  obtain ⟨-, s, hs, hcaught⟩ := h.caught hread
  have hsame : passedOver 0 (read.map (·.index.toNat)) =
      passedOver 0 (letters.map (·.index.toNat)) := by
    refine passedOver_congr fun i => ⟨fun hi => ?_, fun hi => ?_⟩
    · obtain ⟨l, hl, rfl⟩ := List.mem_map.mp hi
      exact List.mem_map_of_mem (h.drawn l hl)
    · obtain ⟨l, hl, rfl⟩ := List.mem_map.mp hi
      exact List.mem_map_of_mem (hevery l hl)
  obtain ⟨added, hskipped, hkeys⟩ := hcaught.kept
  obtain rfl : s.skipped = added := hskipped
  exact ⟨s, hs, hsame ▸ hkeys⟩

/-- The envelopes that a device hands out for another one, in a session that it has started and in
which it has read nothing, may reach that device in any order, each any number of times, whatever
else happens to it: it may answer in between, be started again, and read what others send. As long as
it holds the one-time key when the first is read, no letter is too far ahead and no kept key is
dropped, each is decrypted to what was written the first time it comes, and is refused afterwards.
The first one to be read starts the session that answers the handshake and uses the one-time key up;
all others continue that session. Once all have been read, the keys that are kept are those of the
positions in between that no envelope has: none, if everything that was sealed is in one. -/
theorem flight_any_order {τ : Type} [Store τ] [LawfulStore τ] {ours theirs : Bundle}
    {before : Device.State τ} {writing : List Event} {s : Session} {state : Device.State σ}
    {reading : List Event} (hcipher : S.CipherUndoes)
    (hwrites : Authorship.Unanswered ours theirs before writing)
    (hsession : ((Authorship.begin theirs.device before).run S theirs.device writing).session
      theirs.device = some s)
    (hstarted : m.Started S theirs.identity.publicKey s)
    (hreads : Welcomes S m ours.device theirs s.sendIndex.toNat
      (((Authorship.begin theirs.device before).run S theirs.device writing).flight theirs.device)
      state reading) (n : Nat) :
    let flight := ((Authorship.begin theirs.device before).run S theirs.device writing).flight
      theirs.device
    let letters := Post.lettersFor S m theirs.device flight
    let x := (begin state).run S ours.device (reading.take n)
    (∀ p ∈ flight, reading[n]? = some (.decrypt p.envelope) → ∀ d ∈ x.device,
      ∃ l, p.letter? S m theirs.device = some l ∧ Lands S m ours.device x d p l) ∧
    (flight ≠ [] → (∀ l ∈ letters, l.payload ∈ x.decrypted) →
      ∃ session, x.records.session ours.device = some session ∧
        session.skipped.map (·.key) =
          (passedOver 0 (letters.map (·.index.toNat))).map (messageKeyAt S (m.chain S)) ∧
        (flight.length = s.sendIndex.toNat → session.skipped = [])) := by
  -- the writing side gives a flight of letters, the reading side lands them one by one
  obtain ⟨m', letters, hstarted', hflight⟩ := Authorship.flight_run hwrites hsession
  obtain rfl := hstarted.unique hstarted'
  have hletters := hflight.letters_eq
  intro flight letters' x
  obtain rfl : letters' = letters := hletters
  have hbound : Bound S m ours.device theirs s.sendIndex.toNat flight letters' :=
    ⟨hcipher, hstarted.made, hflight, hreads.distinguished⟩
  obtain ⟨read, hlanded⟩ := hreads.landed_take hbound n
  refine ⟨fun p hp hevent d hdevice => ?_, fun hsome hevery => ?_⟩
  · have hdistinct := hreads.oneTimeKeys_take (n + 1)
    rw [run_take_succ S ours.device _ hevent] at hdistinct
    exact (hlanded.lands hbound hdevice hdistinct hp (hreads.agrees n)
      (hreads.admits n p hp hevent)).1
  · have hevery (l : Letter) (hl : l ∈ letters') : l ∈ read :=
      (hlanded.mem_decrypted hbound hl).mp (hevery l hl)
    obtain ⟨p, hp⟩ := List.exists_mem_of_ne_nil _ hsome
    obtain ⟨l, hl, -⟩ := hflight.exists_letter hp
    obtain ⟨session, hsession, hkeys⟩ :=
      hlanded.exists_skipped (List.ne_nil_of_mem (hevery l hl)) hevery
    refine ⟨session, hsession, hkeys, fun hall => ?_⟩
    rw [hflight.passedOver_eq_nil hall] at hkeys
    exact List.map_eq_nil_iff.mp hkeys

section Example

open Correspondent (alice bob plainBundle stepping twoKeys)

variable {m : Meeting} {s : Session} {events : List Event}

/-- Alice is started and writes. -/
def writes (recipients : List String) (plaintexts : List Bytes) : List Event :=
  .start twoKeys alice.state.env :: plaintexts.map (.encrypt recipients)

/-- Alice when she has written. -/
def aliceWrote (recipients : List String) (plaintexts : List Bytes) : Authorship Memory :=
  (Authorship.begin (plainBundle 3).device alice.state).run .plain (plainBundle 3).device
    (writes recipients plaintexts)

/-- Bob after some of what happens to him. -/
def bobAfter (events : List Event) (n : Nat) : Lifetime Memory :=
  (begin bob.state).run .plain (plainBundle 1).device (events.take n)

/-- Whatever she writes, Alice has read no answer. -/
theorem unanswered_writes (recipients : List String) (plaintexts : List Bytes) :
    Authorship.Unanswered (plainBundle 1) (plainBundle 3) alice.state
      (writes recipients plaintexts) := by
  refine ⟨by decide +kernel, by decide +kernel, by decide +kernel, fun e he => ?_⟩
  rcases List.mem_cons.mp he with rfl | he
  · trivial
  · obtain ⟨plaintext, -, rfl⟩ := List.mem_map.mp he
    trivial

/-- Bob can read the envelopes of a session, as far as it can be computed. -/
def Suits (posts : List Post) (events : List Event) (s : Session) (m : Meeting) : Prop :=
  (bobAfter events events.length).oneTimeKeys.Nodup ∧
  (∀ n ≤ events.length, ∀ own ∈ (bobAfter events n).records.current,
    ∀ q ∈ own.pairs, q.privateKey = some q.publicKey) ∧
  (∀ p ∈ [m.identity, m.ephemeral], p.privateKey = some p.publicKey) ∧
  ∀ l ∈ Post.lettersFor .plain m (plainBundle 3).device posts,
    Distinguished .plain (m.responder .plain) (m.chain .plain) 0 s.sendIndex.toNat l ∧
      ∀ n < events.length, l.payload ∉ (bobAfter events n).decrypted →
        (bobAfter events n).Admits .plain m (plainBundle 1).device l

instance {posts : List Post} : Decidable (Suits posts events s m) :=
  inferInstanceAs (Decidable (_ ∧ _))

/-- On the plain suite, the keys of Alice and Bob agree. -/
theorem Suits.welcomes {posts : List Post} (h : Suits posts events s m)
    (hdrawn : ∀ e, .decrypt e ∈ events → e ∈ posts.map (·.envelope)) :
    Welcomes .plain m (plainBundle 1).device (plainBundle 3) s.sendIndex.toNat posts bob.state
      events := by
  obtain ⟨hkeys, hpairs, hmeeting, hletters⟩ := h
  rw [bobAfter, List.take_of_length_le (Nat.le_refl _)] at hkeys
  refine .of_bounded (Correspondent.healthy_memory bob) (by decide +kernel) hkeys hdrawn
    (fun n hn own hown p hp q hq => ?_) hletters
  exact Suite.plain_agreesWith (hmeeting p hp) (hpairs n hn own hown q hq)

/-- Bob is started and reads the last of three envelopes, answers, reads the first one, is started
again, and all three are brought to him. -/
def unordered (envelopes : List Wire.Envelope) : List Event :=
  .start twoKeys (stepping 5) :: (envelopes.drop 2).map .decrypt ++ .encrypt ["alice"] [4] ::
    (envelopes.take 1).map .decrypt ++ .start twoKeys (stepping 7) :: envelopes.map .decrypt

theorem mem_map_decrypt {envelopes : List Wire.Envelope} {e : Wire.Envelope}
    (h : .decrypt e ∈ envelopes.map Event.decrypt) : e ∈ envelopes := by
  obtain ⟨e', he', hsame⟩ := List.mem_map.mp h
  cases hsame
  exact he'

theorem mem_of_mem_unordered {envelopes : List Wire.Envelope} {e : Wire.Envelope}
    (h : .decrypt e ∈ unordered envelopes) : e ∈ envelopes := by
  simp only [unordered, List.cons_append, List.mem_cons, List.mem_append, reduceCtorEq, false_or,
    or_assoc] at h
  rcases h with h | h | h
  · exact List.mem_of_mem_drop (mem_map_decrypt h)
  · exact List.mem_of_mem_take (mem_map_decrypt h)
  · exact mem_map_decrypt h

/-- Three envelopes of Alice. -/
def threePosts : List Post := (aliceWrote ["bob"] [[1], [2], [3]]).flight (plainBundle 3).device

/-- What happens to Bob when they reach him. -/
def bobsDay : List Event := unordered (threePosts.map (·.envelope))

/-- The last of three envelopes starts the session, an answer is written in between, and the other
two continue it. Nothing is kept when all three were read. -/
theorem flight_any_order_unordered : ∃ m p₁ p₂ p₃, threePosts = [p₁, p₂, p₃] ∧
    [p₁, p₂, p₃].map (·.plaintext) = [[1], [2], [3]] ∧
    [1, 3, 5, 6, 7, 8].map (fun n => (bobAfter bobsDay n).decrypted.length) =
      [0, 1, 2, 2, 3, 3] ∧
    (∀ n p, (n, p) ∈ [(1, p₃), (3, p₁), (5, p₁), (6, p₂), (7, p₃)] →
      (bobAfter bobsDay n).device = some bob.device ∧ ∃ l,
        p.letter? .plain m (plainBundle 3).device = some l ∧
          Lands .plain m (plainBundle 1).device (bobAfter bobsDay n) bob.device p l) ∧
    ∃ session, (bobAfter bobsDay 8).records.session (plainBundle 1).device = some session ∧
      session.skipped = [] := by
  obtain ⟨s, hs, m, hm, hsent, hsuits⟩ :
      ∃ s ∈ (aliceWrote ["bob"] [[1], [2], [3]]).session (plainBundle 3).device,
        ∃ m ∈ s.meeting? .plain (plainBundle 3).identity.publicKey,
          s.sendIndex = 3 ∧ Suits threePosts bobsDay s m := by
    decide +kernel
  obtain ⟨hwritten, hlengths, hstarted⟩ : threePosts.map (·.plaintext) = [[1], [2], [3]] ∧
      [1, 3, 5, 6, 7, 8].map (fun n => (bobAfter bobsDay n).decrypted.length) =
        [0, 1, 2, 2, 3, 3] ∧
      ∀ n ∈ [1, 3, 5, 6, 7], (bobAfter bobsDay n).device = some bob.device := by
    decide +kernel
  have hread : ∀ s ∈ (aliceWrote ["bob"] [[1], [2], [3]]).session (plainBundle 3).device,
      ∀ m ∈ s.meeting? .plain (plainBundle 3).identity.publicKey,
      ∀ l ∈ Post.lettersFor .plain m (plainBundle 3).device threePosts,
        l.payload ∈ (bobAfter bobsDay 8).decrypted := by
    decide +kernel
  have hlands (n : Nat) := flight_any_order Suite.plain_cipherUndoes
    (unanswered_writes ["bob"] [[1], [2], [3]]) hs (Session.meeting?_eq_some.mp hm)
    (hsuits.welcomes fun e he => mem_of_mem_unordered he) n
  have hlength := congrArg List.length hwritten
  rw [List.length_map] at hlength
  obtain ⟨p₁, p₂, p₃, hflight⟩ := List.length_eq_three.mp hlength
  have hempty (n : Nat) (hread : ∀ l ∈ Post.lettersFor .plain m (plainBundle 3).device threePosts,
      l.payload ∈ (bobAfter bobsDay n).decrypted) :
      ∃ session, (bobAfter bobsDay n).records.session (plainBundle 1).device = some session ∧
        session.skipped = [] := by
    have hsome : threePosts ≠ [] := List.ne_nil_of_length_pos (by rw [hlength]; decide)
    obtain ⟨session, hsession, -, hnone⟩ := (hlands n).2 hsome hread
    exact ⟨session, hsession, hnone (by rw [hsent]; exact hlength)⟩
  refine ⟨m, p₁, p₂, p₃, hflight, hflight ▸ hwritten, hlengths, fun n p hp => ?_, ?_⟩
  · have hcomes : p ∈ threePosts ∧ bobsDay[n]? = some (.decrypt p.envelope) := by
      rw [bobsDay, hflight]
      simp only [List.mem_cons, Prod.mk.injEq, List.not_mem_nil, or_false] at hp ⊢
      rcases hp with ⟨rfl, rfl⟩ | ⟨rfl, rfl⟩ | ⟨rfl, rfl⟩ | ⟨rfl, rfl⟩ | ⟨rfl, rfl⟩
      · exact ⟨.inr (.inr rfl), rfl⟩
      · exact ⟨.inl rfl, rfl⟩
      · exact ⟨.inl rfl, rfl⟩
      · exact ⟨.inr (.inl rfl), rfl⟩
      · exact ⟨.inr (.inr rfl), rfl⟩
    have hdevice : (bobAfter bobsDay n).device = some bob.device :=
      hstarted n (List.mem_map_of_mem (f := Prod.fst) hp)
    exact ⟨hdevice, (hlands n).1 p hcomes.1 hcomes.2 bob.device hdevice⟩
  · exact hempty 8 (hread s hs m hm)

/-- Alice is started, writes to Bob and Carol, and then to Bob alone. -/
def writesAgain : List Event :=
  [.start twoKeys alice.state.env, .encrypt ["bob", "carol"] [1], .encrypt ["bob"] [2]]

/-- Alice when she has done so, with a store that fails as she comes to Carol. -/
def aliceInterrupted : Authorship (Faulty Memory) :=
  (Authorship.begin (plainBundle 3).device (alice.failing (· == 6)).state).run .plain
    (plainBundle 3).device writesAgain

/-- The envelope that she hands out. -/
def remainingPost : List Post := aliceInterrupted.flight (plainBundle 3).device

/-- Bob is started and reads it. -/
def readsRemaining : List Event :=
  .start twoKeys (stepping 5) :: (remainingPost.map (·.envelope)).map .decrypt

/-- Alice's store fails when it has saved the session with Bob, in which the first letter was sealed,
and her envelope is given up. Bob has read all that she hands out, the second letter, and keeps the
key of the first. -/
theorem key_kept_of_interrupted : ∃ s m,
    Authorship.Unanswered (plainBundle 1) (plainBundle 3) (alice.failing (· == 6)).state
      writesAgain ∧
    aliceInterrupted.session (plainBundle 3).device = some s ∧
    m.Started .plain (plainBundle 3).identity.publicKey s ∧
    Welcomes .plain m (plainBundle 1).device (plainBundle 3) s.sendIndex.toNat remainingPost
      bob.state readsRemaining ∧
    remainingPost.length = 1 ∧
    (∀ l ∈ Post.lettersFor .plain m (plainBundle 3).device remainingPost,
      l.payload ∈ (bobAfter readsRemaining 2).decrypted) ∧
    ∃ session ∈ (bobAfter readsRemaining 2).records.session (plainBundle 1).device,
      session.skipped.length = 1 := by
  obtain ⟨s, hs, m, hm, hsuits, hread⟩ :
      ∃ s ∈ aliceInterrupted.session (plainBundle 3).device,
        ∃ m ∈ s.meeting? .plain (plainBundle 3).identity.publicKey,
          Suits remainingPost readsRemaining s m ∧
          ∀ l ∈ Post.lettersFor .plain m (plainBundle 3).device remainingPost,
            l.payload ∈ (bobAfter readsRemaining 2).decrypted := by
    decide +kernel
  have hwrites : Authorship.Unanswered (plainBundle 1) (plainBundle 3)
      (alice.failing (· == 6)).state writesAgain := by
    refine ⟨by decide +kernel, by decide +kernel, by decide +kernel, fun e he => ?_⟩
    simp only [writesAgain, List.mem_cons, List.not_mem_nil, or_false] at he
    rcases he with rfl | rfl | rfl <;> trivial
  have hdrawn (e : Wire.Envelope) (he : .decrypt e ∈ readsRemaining) :
      e ∈ remainingPost.map (·.envelope) := by
    rcases List.mem_cons.mp he with he | he
    · cases he
    · exact mem_map_decrypt he
  have hkept : remainingPost.length = 1 ∧
      ∃ session ∈ (bobAfter readsRemaining 2).records.session (plainBundle 1).device,
        session.skipped.length = 1 := by
    decide +kernel
  exact ⟨s, m, hwrites, hs, Session.meeting?_eq_some.mp hm, hsuits.welcomes hdrawn, hkept.1, hread,
    hkept.2⟩

end Example

end EndToEnd.Lifetime

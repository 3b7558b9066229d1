import EndToEnd.Proofs.Correspondence.Introduction
import EndToEnd.Proofs.Device.Addressees
import EndToEnd.Proofs.Device.Events

/-!
# How many entries a device gets

An envelope has an entry for a device each time it is listed: a recipient that is named twice gets
two entries for every device, and so does a device that two recipients advertise. Each entry advances
the session with the device, and the device finds the first of them only. So there is one entry for
each device, and the session is left as that entry needs it, exactly if no device is listed twice.

What is known of one peer never lists a device twice, in any life of a device.

Main statements:

- `entries_nodup_iff`: when no device has two entries;
- `SealsEach.single`: the one entry for a device, and the session that it leaves;
- `listsOnce_run`: the devices of one peer are listed once each;
- `encrypt_entries`: how many entries a device gets, and what it finds.
-/

namespace EndToEnd

/-- No peer's list names a device twice. -/
def Records.ListsOnce (r : Records) : Prop := ∀ name, (r.devices name).Nodup

namespace Device

variable {σ : Type} [Store σ] [LawfulStore σ] {S : Suite} {d : Device} {peer : DeviceId}
  {bodyKey : Key} {s s' : State σ} {entry : Wire.Entry} {recipients : List String}
  {plaintext : Bytes} {e : Wire.Envelope}

/-! ## Lists -/

/-- Lists that name no device twice go on so. -/
def KeepsListsOnce (s s' : State σ) : Prop := s.records.ListsOnce → s'.records.ListsOnce

theorem keepsListsOnce_chains : Chains (KeepsListsOnce (σ := σ)) :=
  ⟨fun h h' hs => h' (h hs), fun _ _ hs => hs⟩

theorem ask_keepsListsOnce {α : Type} (request : Store.Request α) :
    Within KeepsListsOnce (ask request : Action σ α) := by
  refine ask_within (P := fun r r' => r.ListsOnce → r'.ListsOnce) (fun _ h => h) fun r hr => ?_
  cases request with
  | saveDevice name device =>
    intro other
    show (Function.update r.devices name _ other).Nodup
    by_cases hother : other = name
    · subst hother
      rw [Function.update_self]
      exact Memory.nodup_addDevice (hr other)
    · rw [Function.update_of_ne hother]
      exact hr other
  | _ => exact hr

/-! ## Entries -/

/-- How often a device is listed for an envelope that could have an entry for it. -/
def timesListed (d : Device) (r : Records) (recipients : List String) (peer : DeviceId) : Nat :=
  if peer ≠ d.id && r.reaches peer then (recipients.flatMap r.devices).count peer else 0

theorem count_addressees (d : Device) (r : Records) (recipients : List String) (peer : DeviceId) :
    (d.addressees r recipients).count peer = d.timesListed r recipients peer := by
  rw [addressees, timesListed]
  split
  next hreached => exact List.count_filter hreached
  next hreached =>
    exact List.count_eq_zero.mpr fun hmem => hreached (List.mem_filter.mp hmem).2

/-- The entries for a device are as many as it is listed for. -/
theorem length_addressed (h : d.encrypt S recipients plaintext s = (.ok e, s')) (peer : DeviceId) :
    (addressed peer e.entries).length = d.timesListed s.records recipients peer := by
  rw [← count_addressees, ← encrypt_addressees h, addressed, ← List.countP_eq_length_filter,
    List.count_eq_countP, List.countP_map]
  refine List.countP_congr fun entry _ => ?_
  simp

/-- No device has two entries exactly if the devices of each recipient are listed once each, and no
two recipients list one device, but for this one and those out of reach. -/
theorem entries_nodup_iff (h : d.encrypt S recipients plaintext s = (.ok e, s')) :
    (e.entries.map (·.recipient)).Nodup ↔
      (∀ name ∈ recipients, (d.addressees s.records [name]).Nodup) ∧
        recipients.Pairwise fun a b =>
          List.Disjoint (d.addressees s.records [a]) (d.addressees s.records [b]) := by
  have hall : d.addressees s.records recipients =
      recipients.flatMap fun name => d.addressees s.records [name] := by
    simp only [addressees, List.filter_flatMap, List.flatMap_singleton]
  rw [encrypt_addressees h, hall, List.nodup_flatMap]

/-- The entry that a device finds is the first of those for it. -/
theorem entryFor_eq_head? (e : Wire.Envelope) (peer : DeviceId) :
    e.entryFor peer = (addressed peer e.entries).head? :=
  List.head?_filter.symm

/-- One entry for a device is sealed in the session that is found or started with it, and the session
after it is the one that is stored. -/
theorem SealsEach.single (h : SealsEach S peer bodyKey s [entry] s') :
    ∃ session env after, SessionFrom S s.records peer session ∧
      entry.isHandshake = !session.isEstablished ∧
      (session.sealForPeer S bodyKey.bytes env).1 = .ok (entry.key, after) ∧
      s'.records.session peer = some after := by
  generalize hone : [entry] = entries at h
  induction h with
  | nothing => exact nomatch hone
  | one seals =>
    obtain rfl := List.singleton_inj.mp hone
    refine ⟨_, _, _, seals.source, seals.isHandshake, seals.sealed, ?_⟩
    rw [seals.records]
    exact Function.update_self _ _ _
  | append before behind ih ih' =>
    -- one of the two parts is empty, and leaves the session with the device alone
    rcases List.append_eq_singleton_iff.mp hone.symm with ⟨rfl, hrest⟩ | ⟨hfirst, rfl⟩
    · obtain ⟨session, env, after, hsource, hafter⟩ := ih' hrest.symm
      exact ⟨session, env, after, before.spares_of_nil.sessionFrom hsource, hafter⟩
    · obtain ⟨session, env, after, hsource, hhandshake, hsealed, hstored⟩ := ih hfirst.symm
      exact ⟨session, env, after, hsource, hhandshake, hsealed,
        behind.spares_of_nil.1.trans hstored⟩

end Device

/-! ## In a life of a device -/

namespace Lifetime

variable {σ : Type} [Store σ] [LawfulStore σ] {first : Device.State σ}

/-- In every life of a device, the devices of a peer are listed once each, if they were. -/
theorem listsOnce_run (S : Suite) (peer : DeviceId) (h : first.records.ListsOnce)
    (events : List Event) : ((begin first).run S peer events).records.ListsOnce := by
  induction events using List.reverseRecOn with
  | nil => exact h
  | append_singleton events e ih =>
    rw [run_append]
    exact step_within Device.keepsListsOnce_chains Device.ask_keepsListsOnce (fun _ _ h => h) S peer
      _ e ih

end Lifetime

/-! ## Main result -/

namespace Device

variable {σ : Type} [Store σ] [LawfulStore σ] {S : Suite} {d : Device} {s s' : State σ}
  {recipients : List String} {plaintext : Bytes} {e : Wire.Envelope}

/-- If no peer's list names a device twice, only two recipients that list one device can give it two
entries. -/
theorem entries_nodup_iff_pairwise (hlists : s.records.ListsOnce)
    (h : d.encrypt S recipients plaintext s = (.ok e, s')) :
    (e.entries.map (·.recipient)).Nodup ↔ recipients.Pairwise fun a b =>
      List.Disjoint (d.addressees s.records [a]) (d.addressees s.records [b]) := by
  rw [entries_nodup_iff h]
  refine and_iff_right fun name _ => ?_
  rw [addressees, List.flatMap_singleton]
  exact (hlists name).filter _

/-- An envelope has as many entries for a device as it is listed for, so there is at most one for
each exactly if no device is listed twice. A device that is not listed has no entry, and the session
with it stays. One that is listed once finds its only entry, and the session with it is left by
sealing that. In a life of a device that began with lists which name no device twice, it is only for
two recipients that a device can be listed twice. -/
theorem encrypt_entries (h : d.encrypt S recipients plaintext s = (.ok e, s')) :
    ((e.entries.map (·.recipient)).Nodup ↔
      (∀ name ∈ recipients, (d.addressees s.records [name]).Nodup) ∧
        recipients.Pairwise fun a b =>
          List.Disjoint (d.addressees s.records [a]) (d.addressees s.records [b])) ∧
    (∀ peer, (addressed peer e.entries).length = d.timesListed s.records recipients peer ∧
      (d.timesListed s.records recipients peer = 0 → e.entryFor peer = none ∧
        s'.records.session peer = s.records.session peer) ∧
      (d.timesListed s.records recipients peer = 1 → ∃ entry session env after,
        addressed peer e.entries = [entry] ∧ e.entryFor peer = some entry ∧
        SessionFrom S s.records peer session ∧ entry.isHandshake = !session.isEstablished ∧
        (session.sealForPeer S (s.env.draw 32).1.bytes env).1 = .ok (entry.key, after) ∧
        s'.records.session peer = some after)) ∧
    ∀ (first : State σ) (peer : DeviceId) (events : List Lifetime.Event),
      first.records.ListsOnce → s = ((Lifetime.begin first).run S peer events).state →
        ((e.entries.map (·.recipient)).Nodup ↔ recipients.Pairwise fun a b =>
          List.Disjoint (d.addressees s.records [a]) (d.addressees s.records [b])) := by
  refine ⟨entries_nodup_iff h, fun peer => ?_, fun first peer events hfirst hlife =>
    entries_nodup_iff_pairwise (hlife ▸ Lifetime.listsOnce_run S peer hfirst events) h⟩
  have htells := encrypt_tells S d recipients plaintext peer s
  rw [h] at htells
  obtain ⟨hseals, -⟩ := htells
  rw [← length_addressed h peer, entryFor_eq_head?]
  refine ⟨rfl, fun hnone => ?_, fun hone => ?_⟩
  · rw [List.length_eq_zero_iff] at hnone
    rw [hnone] at hseals ⊢
    exact ⟨rfl, hseals.spares_of_nil.1⟩
  · obtain ⟨entry, hentry⟩ := List.length_eq_one_iff.mp hone
    rw [hentry] at hseals ⊢
    obtain ⟨session, env, after, hsource, hrest⟩ := hseals.single
    exact ⟨entry, session, env, after, rfl, rfl, hsource, hrest⟩

open Correspondent (alice bob)

/-- Alice names Bob once. -/
theorem encrypt_entries_alice : ∃ e s',
    alice.device.encrypt .plain ["bob"] [1] alice.state = (.ok e, s') ∧
    (e.entries.map (·.recipient)).Nodup ∧
    ∃ entry after, e.entryFor bob.device.id = some entry ∧
      s'.records.session bob.device.id = some after := by
  have hrun : ∃ e, (alice.device.encrypt .plain ["bob"] [1] alice.state).1 = .ok e ∧
      (alice.device.addressees alice.state.records ["bob"]).Nodup ∧
      alice.device.timesListed alice.state.records ["bob"] bob.device.id = 1 := by
    decide +kernel
  obtain ⟨e, he, hnodup, hone⟩ := hrun
  rcases h : alice.device.encrypt .plain ["bob"] [1] alice.state with ⟨result, s'⟩
  obtain rfl : result = .ok e := (congrArg Prod.fst h).symm.trans he
  obtain ⟨hiff, hentries, -⟩ := encrypt_entries h
  obtain ⟨-, -, honce⟩ := hentries bob.device.id
  obtain ⟨entry, session, env, after, -, hfinds, -, -, -, hstored⟩ := honce hone
  refine ⟨e, s', rfl, hiff.mpr ⟨fun name hname => ?_, List.pairwise_singleton _ _⟩, entry, after,
    hfinds, hstored⟩
  rw [List.mem_singleton.mp hname]
  exact hnodup

/-- Alice names Bob twice, and his device gets two entries. The session with it has advanced for both,
and the second is found by nobody. -/
theorem two_entries_of_doubled : ∃ e s', alice.device.encrypt .plain ["bob", "bob"] [1] alice.state =
      (.ok e, s') ∧ ¬ (e.entries.map (·.recipient)).Nodup ∧
    ∃ first second after, e.entries = [first, second] ∧ first ≠ second ∧
      first.recipient = bob.device.id ∧ second.recipient = bob.device.id ∧
      e.entryFor bob.device.id = some first ∧
      s'.records.session bob.device.id = some after ∧ after.sendIndex = 2 := by
  have hrun : ∃ e, (alice.device.encrypt .plain ["bob", "bob"] [1] alice.state).1 = .ok e ∧
      ¬ (e.entries.map (·.recipient)).Nodup ∧
      ∃ first ∈ e.entries[0]?, ∃ second ∈ e.entries[1]?,
        ∃ after ∈ (alice.device.encrypt .plain ["bob", "bob"] [1] alice.state).2.records.session
          bob.device.id,
        e.entries = [first, second] ∧ first ≠ second ∧ first.recipient = bob.device.id ∧
        second.recipient = bob.device.id ∧ e.entryFor bob.device.id = some first ∧
        after.sendIndex = 2 := by
    decide +kernel
  generalize alice.device.encrypt .plain ["bob", "bob"] [1] alice.state = run at hrun ⊢
  obtain ⟨result, s'⟩ := run
  obtain ⟨e, rfl, htwice, first, -, second, -, after, hafter, hentries, hne, hfirst, hsecond, hfinds,
    hindex⟩ := hrun
  exact ⟨e, s', rfl, htwice, first, second, after, hentries, hne, hfirst, hsecond, hfinds,
    hafter, hindex⟩

end Device

end EndToEnd

import EndToEnd.Proofs.Device.Events

/-!
# One-time keys are used once

A one-time key leaves our bundle when an envelope that names it is decrypted. The others keep their
order, and fresh ones come behind them, under numbers that no key of the device has had. From then on
the key is in no bundle that the device holds or publishes, and no envelope starts a session with it,
whatever else happens: the device may be started again, and calls of its store may fail. An envelope
that is refused uses no key up.

Main statements:

- `Numbered.run`: the numbers of the one-time keys are given in order, each once;
- `UsedUp.run`, `UsedUp.retired`: a key that is used up stays so, and what that means;
- `oneTimeKey_used_once`: what becomes of our bundle, and of the key, when an envelope uses it.
-/

namespace EndToEnd

/-- The bundle after a one-time key was used up: the others in their order, and fresh ones behind
them, of which the target says how many there are. -/
structure Bundle.Replaces (own : Bundle) (name : Bytes) (target : Nat) (fresh : List OneTimeKey)
    (next : Bundle) : Prop where
  device : next.device = own.device
  identity : next.identity = own.identity
  /-- The key of the name was there once, and it alone is missing. -/
  keys : ∃ before key behind, own.oneTimeKeys = before ++ key :: behind ∧
    key.pair.publicKey.bytes = name ∧
    (∀ other ∈ before ++ behind, other.pair.publicKey.bytes ≠ name) ∧
    next.oneTimeKeys = before ++ behind ++ fresh
  count : next.oneTimeKeys.length = max (own.oneTimeKeys.length - 1) target

namespace Lifetime

variable {σ : Type} [Store σ] [LawfulStore σ] {S : Suite} {peer : DeviceId} {x : Lifetime σ}
  {state : Device.State σ} {own : Bundle} {e : Lifetime.Event} {name : Bytes}

/-! ## Numbers -/

/-- Every one-time key that the device has had was given a number of its own. -/
def Numbered (x : Lifetime σ) : Prop :=
  match x.records.current with
  | none => x.oneTimeKeys = []
  | some b => b.Numbered x.oneTimeKeys.length

theorem Numbered.of_some (h : x.Numbered) (hcurrent : x.records.current = some own) :
    own.Numbered x.oneTimeKeys.length := by
  rw [Lifetime.Numbered, hcurrent] at h
  exact h

/-- A first bundle has the first numbers. -/
theorem numbered_generate (S : Suite) (count : Nat) (env : Environment) (hfew : count < UInt32.size) :
    (Bundle.generate S count env).1.Numbered count := by
  have hempty : Bundle.Numbered ⟨.ofNat env.drawNat128.1, (env.drawNat128.2.drawKeyPair S).1, [], 0⟩
      0 := ⟨rfl, .nil, nofun⟩
  have hmore : 0 + count < UInt32.size := (Nat.zero_add count).symm ▸ hfew
  obtain ⟨fresh, -, -, -, -, hnumbered⟩ :=
    hempty.addKeys S (env.drawNat128.2.drawKeyPair S).2 hmore
  rw [Nat.zero_add] at hnumbered
  exact hnumbered

/-- When a one-time key is used up, the fresh ones get numbers that no key has had. -/
theorem Numbered.used (h : x.Numbered) (hown : x.records.current = some own)
    (hheld : (own.find? name).isSome) {target : Nat} {env : Environment}
    (hused : (x.step S peer e).records.current =
      some ((own.erase name).replenish S target env).2.1)
    (hfew : (x.step S peer e).oneTimeKeys.length < UInt32.size) :
    ∃ fresh, ((own.erase name).replenish S target env).2.1.oneTimeKeys =
        own.oneTimeKeys.eraseP (·.isNamed name) ++ fresh ∧
      (fresh.map (·.id.toNat)).Nodup ∧ (∀ k ∈ fresh, x.oneTimeKeys.length ≤ k.id.toNat) ∧
      (x.step S peer e).Numbered := by
  have hnoted : (x.step S peer e).oneTimeKeys =
      x.oneTimeKeys ++ gained x.records.current (x.step S peer e).records.current :=
    oneTimeKeys_step S peer x e
  obtain ⟨-, gainedKeys, hgainedKeys, hgained⟩ := Renews.of_used (S := S) hheld target env
  rw [hown, hused, hgained] at hnoted
  have hmissing : (own.erase name).missing target = gainedKeys.length := by
    have hlength := congrArg List.length hgainedKeys
    rw [Bundle.replenish_snd, Bundle.length_addKeys, List.length_append] at hlength
    exact Nat.add_left_cancel hlength
  rw [hnoted, List.length_append, List.length_map, ← hmissing] at hfew
  obtain ⟨fresh, hkeys, -, hnodup, hlow, hnumbered⟩ :=
    ((h.of_some hown).erase name).addKeys S env hfew
  refine ⟨fresh, hkeys, hnodup, hlow, ?_⟩
  rw [Lifetime.Numbered, hused, hnoted, List.length_append, List.length_map, ← hmissing]
  exact hnumbered

/-- Numbers go on to be given in order, as long as there are any. -/
theorem Numbered.step (h : x.Numbered) (hfew : (x.step S peer e).oneTimeKeys.length < UInt32.size) :
    (x.step S peer e).Numbered := by
  have hnoted : (x.step S peer e).oneTimeKeys =
      x.oneTimeKeys ++ gained x.records.current (x.step S peer e).records.current :=
    oneTimeKeys_step S peer x e
  rcases current_step S peer x e with
    hsame | ⟨hnone, count, env, hfirst⟩ | ⟨own, name, target, env, hown, hheld, hused⟩
  · rw [hsame, gained, if_pos rfl, List.append_nil] at hnoted
    rw [Lifetime.Numbered, hsame, hnoted]
    exact h
  · have hempty : x.oneTimeKeys = [] := by
      rw [Lifetime.Numbered, hnone] at h
      exact h
    rw [hnone, hfirst, hempty, gained, if_neg (Option.some_ne_none _)] at hnoted
    have hcount : (x.step S peer e).oneTimeKeys.length = count := by
      rw [hnoted, keysHeld, keysHeld, List.nil_append, List.length_nil, Nat.zero_sub, List.drop_zero,
        List.length_map, Bundle.generate, Bundle.length_replenish]
      exact Nat.max_eq_right (Nat.zero_le count)
    rw [hcount] at hfew
    rw [Lifetime.Numbered, hfirst, hcount]
    exact numbered_generate S count env hfew
  · obtain ⟨-, -, -, -, hnumbered⟩ := h.used hown hheld hused hfew
    exact hnumbered

/-- Whatever happens to a device that has had no bundle, its one-time keys are numbered in order. -/
theorem Numbered.run (S : Suite) (peer : DeviceId) {state : Device.State σ}
    (hnone : state.records.current = none) (events : List Event)
    (hfew : ((begin state).run S peer events).oneTimeKeys.length < UInt32.size) :
    ((begin state).run S peer events).Numbered := by
  induction events using List.reverseRecOn with
  | nil =>
    have hcurrent : (begin state).records.current = none := hnone
    show Lifetime.Numbered (begin state)
    rw [Lifetime.Numbered, hcurrent]
    show keysHeld state.records.current = []
    rw [hnone]
    rfl
  | append_singleton events e ih =>
    rw [run_append] at hfew ⊢
    refine (ih ?_).step hfew
    exact Nat.lt_of_le_of_lt (oneTimeKeys_prefix_step S peer _ e).length_le hfew

/-! ## Keys that are used up -/

/-- A one-time key that the device does not come back to. -/
structure Retired (S : Suite) (name : Bytes) (x : Lifetime σ) : Prop where
  held : ∀ b, x.records.current = some b → ∀ k ∈ b.oneTimeKeys, k.pair.publicKey.bytes ≠ name
  published : ∀ p s, Device.publishedBundle x.state = (.ok p, s) →
    ∀ k ∈ p.oneTimeKeys, k.key ≠ name
  handedOut : ∀ p s, Device.takeUnpublished x.state = (.ok (some p), s) →
    ∀ k ∈ p.oneTimeKeys, k.key ≠ name
  startsNone : ∀ d sender entry opening,
    Device.OpensWith S d x.records sender entry opening → oneTimeOf entry opening ≠ some name

/-- A one-time key that is used up is not come back to. -/
theorem UsedUp.retired (h : x.UsedUp name) : x.Retired S name := by
  have hheld {b : Bundle} (hcurrent : x.records.current = some b) {k : OneTimeKey}
      (hk : k ∈ b.oneTimeKeys) : k.pair.publicKey.bytes ≠ name := by
    intro hnamed
    have hfound := Bundle.find?_isSome.mpr ⟨k, hk, beq_iff_eq.mpr hnamed⟩
    rw [h.find?_eq_none hcurrent] at hfound
    exact Bool.false_ne_true hfound
  have hpublish {b : Bundle} (hcurrent : x.records.current = some b) :
      ∀ k ∈ b.publish.oneTimeKeys, k.key ≠ name := by
    intro k hk
    obtain ⟨own, hown, rfl⟩ := List.mem_map.mp hk
    exact hheld hcurrent hown
  refine ⟨fun b hcurrent k hk => hheld hcurrent hk, fun p s hp => ?_, fun p s hp => ?_,
    fun d sender entry opening hopens hstarts => ?_⟩
  · obtain ⟨b, hcurrent, rfl⟩ := Device.publishedBundle_ok hp
    exact hpublish hcurrent
  · obtain ⟨b, hcurrent, rfl⟩ := Device.takeUnpublished_ok hp
    exact hpublish hcurrent
  · rcases oneTimeOf_cases hopens with ⟨hno, -⟩ | ⟨own, other, env, huses, hother, -⟩
    · cases hno.symm.trans hstarts
    · obtain rfl := Option.some.inj (hother.symm.trans hstarts)
      exact h.not_usesUp huses

/-- A one-time key that is used up stays so, if no key is generated twice. -/
theorem UsedUp.run (h : x.UsedUp name) (events : List Event)
    (hdistinct : (x.run S peer events).oneTimeKeys.Nodup) : (x.run S peer events).UsedUp name := by
  induction events using List.reverseRecOn with
  | nil => exact h
  | append_singleton events e ih =>
    rw [run_append] at hdistinct ⊢
    exact (ih ((oneTimeKeys_prefix_step S peer _ e).sublist.nodup hdistinct)).step hdistinct

/-- All one-time keys that are held are noted in a run. -/
theorem Notes.run (S : Suite) (peer : DeviceId) (state : Device.State σ) (events : List Event) :
    ((begin state).run S peer events).Notes := by
  induction events using List.reverseRecOn with
  | nil => exact List.Sublist.refl _
  | append_singleton events e ih =>
    rw [run_append]
    exact ih.step e

/-! ## Using a key -/

/-- A bundle holds a one-time key once, if no key is generated twice. -/
theorem Notes.exists_middle (h : x.Notes) (hcurrent : x.records.current = some own)
    (hdistinct : x.oneTimeKeys.Nodup) (hheld : (own.find? name).isSome) :
    ∃ before key behind, own.oneTimeKeys = before ++ key :: behind ∧
      own.oneTimeKeys.eraseP (·.isNamed name) = before ++ behind ∧
      key.pair.publicKey.bytes = name ∧
      ∀ other ∈ before ++ behind, other.pair.publicKey.bytes ≠ name := by
  obtain ⟨k, hk, hnamed⟩ := Bundle.find?_isSome.mp hheld
  obtain ⟨key, before, behind, -, hkey, hown, herased⟩ := List.exists_of_eraseP hk hnamed
  obtain rfl : key.pair.publicKey.bytes = name := beq_iff_eq.mp hkey
  have honce : (keysHeld x.records.current).Nodup := h.nodup hdistinct
  rw [hcurrent, keysHeld, hown, List.map_append, List.map_cons, List.nodup_middle, List.nodup_cons,
    ← List.map_append] at honce
  refine ⟨before, key, behind, hown, herased, rfl, fun other hother hsame => honce.1 ?_⟩
  exact Octets.ext hsame ▸ List.mem_map_of_mem hother

/-- The bundle after a one-time key was used up, and the numbers of the fresh ones. -/
theorem Numbered.replaces (h : x.Numbered) (hnotes : x.Notes)
    (hown : x.records.current = some own) (hheld : (own.find? name).isSome) {target : Nat}
    {env : Environment}
    (hused : (x.step S peer e).records.current =
      some ((own.erase name).replenish S target env).2.1)
    (hdistinct : x.oneTimeKeys.Nodup) (hfew : (x.step S peer e).oneTimeKeys.length < UInt32.size) :
    ∃ fresh, own.Replaces name target fresh ((own.erase name).replenish S target env).2.1 ∧
      (fresh.map (·.id)).Nodup ∧ ∀ k ∈ fresh, x.oneTimeKeys.length ≤ k.id.toNat := by
  obtain ⟨fresh, hkeys, hnodup, hlow, -⟩ := h.used hown hheld hused hfew
  obtain ⟨before, key, behind, hmiddle, herased, hkey, hothers⟩ :=
    hnotes.exists_middle hown hdistinct hheld
  obtain ⟨hdevice, hidentity⟩ := Bundle.replenish_erase_frame S own name target env
  refine ⟨fresh, ⟨hdevice, hidentity, ⟨before, key, behind, hmiddle, hkey, hothers, ?_⟩, ?_⟩, ?_,
    hlow⟩
  · rw [hkeys, herased]
  · rw [Bundle.length_replenish, Bundle.length_erase hheld]
  · refine List.Nodup.of_map UInt32.toNat ?_
    rw [List.map_map]
    exact hnodup

/-- The numbers of the one-time keys that a device has had are below those that it goes on with. -/
theorem Numbered.id_lt_of_prefix (S : Suite) (peer : DeviceId) {state : Device.State σ}
    (hnone : state.records.current = none) (events earlier : List Event) {b : Bundle}
    {k : OneTimeKey} (hearly : earlier <+: events)
    (hfew : ((begin state).run S peer events).oneTimeKeys.length < UInt32.size)
    (hb : ((begin state).run S peer earlier).records.current = some b) (hk : k ∈ b.oneTimeKeys) :
    k.id.toNat < ((begin state).run S peer events).oneTimeKeys.length := by
  obtain ⟨rest, rfl⟩ := hearly
  rw [run_append] at hfew ⊢
  have hle := (oneTimeKeys_prefix_run S peer ((begin state).run S peer earlier) rest).length_le
  have hnumbered := Numbered.run S peer hnone earlier (Nat.lt_of_le_of_lt hle hfew)
  exact Nat.lt_of_lt_of_le ((hnumbered.of_some hb).given k hk) hle

/-- In every life of a device that begins without a bundle: an envelope that is refused leaves our
bundle as it is. One that is decrypted and names a one-time key that the bundle holds replaces the
bundle by one without that key, with fresh ones under new numbers, and the device does not come back
to the key, whatever happens then. -/
theorem oneTimeKey_used_once (S : Suite) (peer : DeviceId) (state : Device.State σ)
    (hnone : state.records.current = none) (events rest : List Event) {d : Device}
    {e : Wire.Envelope} (hdevice : ((begin state).run S peer events).device = some d)
    (hdistinct : ((begin state).run S peer (events ++ .decrypt e :: rest)).oneTimeKeys.Nodup)
    (hfew : ((begin state).run S peer (events ++ .decrypt e :: rest)).oneTimeKeys.length < UInt32.size) :
    match d.decrypt S e ((begin state).run S peer events).state with
    | (.error _, s) => s.records.current = ((begin state).run S peer events).records.current
    | (.ok _, s) => ∀ entry own name, e.entryFor d.id = some entry →
        Device.UsesUp ((begin state).run S peer events).records entry own name →
        (∃ fresh next, s.records.current = some next ∧
          own.Replaces name d.config.oneTimeKeys fresh next ∧ (fresh.map (·.id)).Nodup ∧
          ∀ earlier b, earlier <+: events →
            ((begin state).run S peer earlier).records.current = some b →
            ∀ old ∈ b.oneTimeKeys, ∀ k ∈ fresh, k.id ≠ old.id) ∧
        ((begin state).run S peer (events ++ .decrypt e :: rest)).Retired S name := by
  cases hdecrypt : d.decrypt S e ((begin state).run S peer events).state with
  | mk result s =>
    cases result with
    | error cause => exact Device.current_of_decrypt_error hdecrypt
    | ok plaintext =>
      intro entry own name hentry huses
      rw [run_append, run, List.foldl_cons] at hdistinct hfew ⊢
      have hnotes := Notes.run S peer state events
      have hnumbered := Numbered.run S peer hnone events
      have hearlier := Numbered.id_lt_of_prefix S peer hnone events
      generalize (begin state).run S peer events = x at *
      -- No key was generated twice, and there are numbers left, before and after the envelope.
      have hbehind := oneTimeKeys_prefix_run S peer (x.step S peer (.decrypt e)) rest
      have hbefore := oneTimeKeys_prefix_step S peer x (.decrypt e)
      have hdistinct' := hbehind.sublist.nodup hdistinct
      have hfew' := Nat.lt_of_le_of_lt hbehind.length_le hfew
      have hfewBefore := Nat.lt_of_le_of_lt hbefore.length_le hfew'
      obtain ⟨env, hcurrent⟩ := Device.current_of_usesUp hdecrypt hentry huses
      have hstep : (x.step S peer (.decrypt e)).records.current = s.records.current :=
        congrArg (·.records.current) (step_decrypt peer hdevice hdecrypt).1
      refine ⟨?_, ?_⟩
      · obtain ⟨fresh, hreplaces, hnodup, hlow⟩ := (hnumbered hfewBefore).replaces hnotes
          huses.current huses.held (hstep.trans hcurrent) (hbefore.sublist.nodup hdistinct') hfew'
        refine ⟨fresh, _, hcurrent, hreplaces, hnodup,
          fun earlier b hearly hb old hold k hk hsame => ?_⟩
        have hlt := hearlier earlier hearly hfewBefore hb hold
        exact absurd (hsame ▸ hlow k hk) (Nat.not_le_of_lt hlt)
      · have hused := hnotes.usedUp_step huses (hstep.trans hcurrent) hdistinct'
        exact (hused.run rest hdistinct).retired

open Correspondent (alice bob)

/-- Bob's device before it has a bundle, on a store that refuses its seventh call. -/
def unlucky : Device.State (Faulty Memory) :=
  ⟨⟨{}, (· == 6), 0⟩, Correspondent.stepping 3, false⟩

/-- Bob is started, hands his bundle out and reads an envelope, and his store refuses to replace the
bundle. -/
def unluckyDay (first : Wire.Envelope) : List Event :=
  [.start Correspondent.twoKeys (Correspondent.stepping 3), .publish, .decrypt first]

/-- He reads another envelope of the handshake, and the first one again after he was started again.
-/
def unluckyDayAfter (first : Wire.Envelope) : List Event :=
  [.start Correspondent.twoKeys (Correspondent.stepping 5), .decrypt first, .publish]

/-- The second envelope uses the key up that the first one has left. -/
theorem oneTimeKey_used_once_bob : ∃ envelopes, letters = .ok envelopes ∧
    ∃ first ∈ envelopes[0]?, ∃ second ∈ envelopes[1]?,
      let x := (begin unlucky).run .plain alice.device.id (unluckyDay first)
      ∃ d ∈ x.device, ∃ s entry own name fresh next,
        d.decrypt .plain second x.state = (.ok [2], s) ∧
        second.entryFor d.id = some entry ∧ Device.UsesUp x.records entry own name ∧
        s.records.current = some next ∧ own.Replaces name d.config.oneTimeKeys fresh next ∧
        ((begin unlucky).run .plain alice.device.id
          (unluckyDay first ++ .decrypt second :: unluckyDayAfter first)).Retired .plain name := by
  have hrun : ∃ envelopes, letters = .ok envelopes ∧
      ∃ first ∈ envelopes[0]?, ∃ second ∈ envelopes[1]?,
        let x := (begin unlucky).run .plain alice.device.id (unluckyDay first)
        let y := (begin unlucky).run .plain alice.device.id
          (unluckyDay first ++ .decrypt second :: unluckyDayAfter first)
        (∃ d ∈ x.device,
          (∃ plaintext, (d.decrypt .plain second x.state).1 = .ok plaintext ∧ plaintext = [2]) ∧
          ∃ entry ∈ second.entryFor d.id, entry.isHandshake = true ∧
            ∃ m, Wire.HandshakeMessage.decode entry.key = .ok m ∧
              ∃ own ∈ x.records.current, (own.find? m.oneTimeKey).isSome) ∧
          y.oneTimeKeys.Nodup ∧ y.oneTimeKeys.length < UInt32.size := by
    decide +kernel
  obtain ⟨envelopes, hletters, first, hfirst, second, hsecond, hrun⟩ := hrun
  obtain ⟨⟨d, hdevice, ⟨plaintext, hplain, rfl⟩, entry, hentry, hhandshake, m, hm, own, hown, hheld⟩,
    hdistinct, hfew⟩ := hrun
  have huses : Device.UsesUp _ entry own m.oneTimeKey := ⟨hhandshake, ⟨m, hm, rfl⟩, hown, hheld⟩
  have honce := oneTimeKey_used_once .plain alice.device.id unlucky rfl (unluckyDay first)
    (unluckyDayAfter first) hdevice hdistinct hfew
  have hdecrypt : d.decrypt .plain second _ = (.ok [2], _) := Prod.ext hplain rfl
  rw [hdecrypt] at honce
  obtain ⟨⟨fresh, next, hnext, hreplaces, -⟩, hretired⟩ := honce entry own _ hentry huses
  exact ⟨envelopes, hletters, first, hfirst, second, hsecond, d, hdevice, _, entry, own, _, fresh,
    next, hdecrypt, hentry, huses, hnext, hreplaces, hretired⟩

end Lifetime

end EndToEnd

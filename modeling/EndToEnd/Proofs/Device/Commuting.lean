import EndToEnd.Proofs.Bundle
import EndToEnd.Proofs.Correspondence.Introduction
import EndToEnd.Proofs.Device.Effect

/-!
# Envelopes of different senders commute

Two envelopes of different senders meet in what they share at the device that reads them: its bundle
and its randomness. Each uses up at most one one-time key there and draws fresh ones in its place.
The keys that are left keep their order, whichever went first, and how many are drawn depends on how
many are left, not on which. So it makes no difference in which order the two are decrypted.

Three things are assumed. The envelopes do not use up the same one-time key, each is decrypted when
it is the only one, and neither names a key that is drawn only for the other.

Main statements:

- `Bundle.useUp_comm`: two one-time keys used up in either order;
- `decrypt_accepts`, `Accepts.of_opens`: what an envelope that is decrypted has done, to the word of
  the random stream;
- `Accepts.behind`: an envelope is decrypted behind another one as it is without it;
- `decrypt_comm`: two envelopes in either order.
-/

namespace EndToEnd

/-! ## Using two keys up -/

namespace Bundle

variable {S : Suite} {own : Bundle} {name other : Bytes} {target : Nat} {env : Environment}

/-- The bundle and the environment after the one-time key of a name was used up. -/
def useUp (S : Suite) (target : Nat) (name : Bytes) (own : Bundle) (env : Environment) :
    Bundle × Environment :=
  ((own.erase name).replenish S target env).2

/-- Fresh keys are drawn one after the other. -/
theorem addKeys_add (S : Suite) (first second : Nat) (b : Bundle) (env : Environment) :
    addKeys S (first + second) b env =
      addKeys S second (addKeys S first b env).1 (addKeys S first b env).2 := by
  induction first generalizing b env with
  | zero => rw [Nat.zero_add, addKeys]
  | succ first ih =>
    rw [Nat.add_right_comm]
    simp only [addKeys, ih]

/-- A key that is held is removed before fresh ones are drawn as well as afterwards. -/
theorem addKeys_erase (S : Suite) (count : Nat) (env : Environment)
    (hheld : (own.find? name).isSome) :
    addKeys S count (own.erase name) env =
      ((addKeys S count own env).1.erase name, (addKeys S count own env).2) := by
  induction count generalizing own env with
  | zero => rfl
  | succ count ih =>
    obtain ⟨k, hk, hnamed⟩ := find?_isSome.mp hheld
    -- the key stands before the fresh ones: they are not looked at
    have herase := List.eraseP_append_left hnamed [⟨own.nextId, (env.drawKeyPair S).1⟩] hk
    simp only [addKeys]
    rw [← ih]
    · simp only [erase, herase]
    · exact find?_isSome.mpr ⟨k, List.mem_append_left _ hk, hnamed⟩

theorem not_isNamed_of_ne (hne : name ≠ other) {k : OneTimeKey} (hnamed : k.isNamed name = true) :
    ¬ k.isNamed other = true :=
  fun hother => hne ((beq_iff_eq.mp hnamed).symm.trans (beq_iff_eq.mp hother))

/-- Keys of different names are taken out in any order. -/
theorem erase_comm (hne : name ≠ other) (own : Bundle) :
    (own.erase name).erase other = (own.erase other).erase name := by
  have hkeys := List.eraseP_comm (l := own.oneTimeKeys) fun k _ =>
    Decidable.not_or_of_imp (not_isNamed_of_ne hne (k := k))
  simp only [erase, hkeys]

/-- A key is still held after another one was taken out. -/
theorem find?_erase_isSome (hne : name ≠ other) (hheld : (own.find? other).isSome) :
    ((own.erase name).find? other).isSome := by
  obtain ⟨k, hk, hnamed⟩ := find?_isSome.mp hheld
  exact find?_isSome.mpr
    ⟨k, (List.mem_eraseP_of_neg (not_isNamed_of_ne hne.symm hnamed)).mpr hk, hnamed⟩

/-- Two one-time keys used up: fresh ones stand behind those that are left of the bundle, as many as
the lengths alone say. -/
theorem useUp_useUp (hne : name ≠ other) (hname : (own.find? name).isSome)
    (hother : (own.find? other).isSome) (S : Suite) (target : Nat) (env : Environment) :
    (own.useUp S target name env).1.useUp S target other (own.useUp S target name env).2 =
      addKeys S (target - (own.oneTimeKeys.length - 1) +
          (target - (max (own.oneTimeKeys.length - 1) target - 1)))
        ((own.erase name).erase other) env := by
  have hkept : ((own.erase name).find? other).isSome := find?_erase_isSome hne hother
  have hheld : ((own.useUp S target name env).1.find? other).isSome := by
    obtain ⟨k, hk, hnamed⟩ := find?_isSome.mp hkept
    obtain ⟨fresh, hkeys⟩ := addKeys_eq S ((own.erase name).missing target) (own.erase name) env
    refine find?_isSome.mpr ⟨k, ?_, hnamed⟩
    rw [useUp, replenish_snd, hkeys]
    exact List.mem_append_left _ hk
  have hmissing : ((own.useUp S target name env).1.erase other).missing target =
      target - (max (own.oneTimeKeys.length - 1) target - 1) := by
    rw [missing, length_erase hheld, useUp, length_replenish, length_erase hname]
  rw [useUp, replenish_snd, hmissing, addKeys_add, addKeys_erase S _ _ hkept, useUp, replenish_snd,
    missing, length_erase hname]

/-- It makes no difference which of two one-time keys is used up first. -/
theorem useUp_comm (hne : name ≠ other) (hname : (own.find? name).isSome)
    (hother : (own.find? other).isSome) (S : Suite) (target : Nat) (env : Environment) :
    (own.useUp S target name env).1.useUp S target other (own.useUp S target name env).2 =
      (own.useUp S target other env).1.useUp S target name (own.useUp S target other env).2 := by
  rw [useUp_useUp hne hname hother, useUp_useUp hne.symm hother hname, erase_comm hne]

/-- A name that is not the one of the key that is used up, and of none that is drawn, means what it
meant before. -/
theorem find?_useUp (hne : other ≠ name)
    (hfresh : ∀ k ∈ (own.useUp S target name env).1.oneTimeKeys, k ∉ own.oneTimeKeys →
      k.pair.publicKey.bytes ≠ other) :
    (own.useUp S target name env).1.find? other = own.find? other := by
  obtain ⟨fresh, hkeys⟩ := addKeys_eq S ((own.erase name).missing target) (own.erase name) env
  have hbehind : (own.useUp S target name env).1.oneTimeKeys =
      own.oneTimeKeys.eraseP (·.isNamed name) ++ fresh := hkeys
  have hkept : (own.oneTimeKeys.eraseP (·.isNamed name)).find? (·.isNamed other) =
      own.oneTimeKeys.find? (·.isNamed other) := by
    rcases List.exists_or_eq_self_of_eraseP (·.isNamed name) own.oneTimeKeys with
      hsame | ⟨k, before, behind, -, hnamed, hkeys, herased⟩
    · rw [hsame]
    · rw [herased, hkeys, List.find?_append, List.find?_append,
        List.find?_cons_of_neg (not_isNamed_of_ne hne.symm hnamed)]
  rw [find?, find?, hbehind, List.find?_append, hkept]
  cases hfound : own.oneTimeKeys.find? (·.isNamed other) with
  | some k => rfl
  | none =>
    have hnone : fresh.find? (·.isNamed other) = none := by
      rw [List.find?_eq_none] at hfound ⊢
      intro k hk hnamed
      exact hfresh k (hbehind ▸ List.mem_append_right _ hk) (fun hk => hfound k hk hnamed)
        (beq_iff_eq.mp hnamed)
    rw [hnone]
    rfl

end Bundle

namespace Device

variable {σ : Type} [Store σ] {S : Suite} {d : Device} {r r' : Records} {e : Wire.Envelope}
  {entry : Wire.Entry} {opening : Opening} {now : UInt64} {plaintext : Bytes} {after : Session}

/-! ## What an envelope takes -/

/-- The one-time key that an envelope names for the device, if it may start a session. -/
def namedKey (d : Device) (e : Wire.Envelope) : Option Bytes :=
  match e.entryFor d.id with
  | none => none
  | some entry =>
    if entry.isHandshake then
      (Wire.HandshakeMessage.decode entry.key).toOption.map (·.oneTimeKey)
    else none

/-- The one-time key of our bundle that the envelope uses up. -/
def usedKey (d : Device) (r : Records) (e : Wire.Envelope) : Option Bytes := do
  let own ← r.current
  (d.namedKey e).filter fun name => (own.find? name).isSome

/-- Our bundle and the environment after an envelope that uses a key up, or none. -/
def spend (S : Suite) (target : Nat) (used : Option Bytes) (current : Option Bundle)
    (env : Environment) : Option Bundle × Environment :=
  match used, current with
  | some name, some own =>
    let (next, env) := own.useUp S target name env
    (some next, env)
  | _, _ => (current, env)

/-- The envelope can be decrypted with what is stored, and would leave that session with its
sender. -/
def Opens (S : Suite) (d : Device) (r : Records) (e : Wire.Envelope) (now : UInt64)
    (plaintext : Bytes) (after : Session) : Prop :=
  ∃ entry opening bodyKey, Unlocks S d r e entry opening now bodyKey after ∧
    S.decrypt bodyKey e.iv.bytes e.body = .ok plaintext

/-- The key that a handshake message names is the key that its envelope names. -/
theorem namedKey_of_decode {m : Wire.HandshakeMessage} (hentry : e.entryFor d.id = some entry)
    (hhandshake : entry.isHandshake = true)
    (hdecode : Wire.HandshakeMessage.decode entry.key = .ok m) :
    d.namedKey e = some m.oneTimeKey := by
  simp only [namedKey, hentry, hhandshake, if_true, hdecode]
  rfl

/-- An envelope uses a key if it names one that is held. -/
theorem usedKey_eq_some {name : Bytes} : d.usedKey r e = some name ↔
    d.namedKey e = some name ∧ ∃ own, r.current = some own ∧ (own.find? name).isSome := by
  simp only [usedKey, Option.bind_eq_bind, Option.bind_eq_some_iff, Option.filter_eq_some_iff]
  exact ⟨fun ⟨own, hcurrent, hnamed, hheld⟩ => ⟨hnamed, own, hcurrent, hheld⟩,
    fun ⟨hnamed, own, hcurrent, hheld⟩ => ⟨own, hcurrent, hnamed, hheld⟩⟩

/-- The envelope uses a key up exactly if its entry does. -/
theorem usedKey_eq_some_iff {name : Bytes} (hentry : e.entryFor d.id = some entry) :
    d.usedKey r e = some name ↔ ∃ own, UsesUp r entry own name := by
  rw [usedKey_eq_some, namedKey, hentry]
  dsimp only
  split
  next hhandshake =>
    cases hdecode : Wire.HandshakeMessage.decode entry.key with
    | error cause =>
      exact ⟨fun h => (nomatch h.1), fun ⟨own, huses⟩ => by
        obtain ⟨m, hm, -⟩ := huses.named
        exact nomatch hm.symm.trans hdecode⟩
    | ok m =>
      refine ⟨fun ⟨hnamed, own, hcurrent, hheld⟩ => ?_, fun ⟨own, huses⟩ => ?_⟩
      · exact ⟨own, hhandshake, ⟨m, hdecode, Option.some.inj hnamed⟩, hcurrent, hheld⟩
      · obtain ⟨m', hm', hnamed⟩ := huses.named
        obtain rfl := Except.ok.inj (hdecode.symm.trans hm')
        exact ⟨congrArg some hnamed, own, huses.current, huses.held⟩
  next hplain => exact ⟨fun h => (nomatch h.1), fun ⟨own, huses⟩ => absurd huses.handshake hplain⟩

/-- An envelope can be decrypted in one way only. -/
theorem Opens.unique {plaintext' : Bytes} {after' : Session} (h : Opens S d r e now plaintext after)
    (h' : Opens S d r e now plaintext' after') : plaintext' = plaintext ∧ after' = after := by
  obtain ⟨entry, opening, bodyKey, hunlocks, hplain⟩ := h
  obtain ⟨entry', opening', bodyKey', hunlocks', hplain'⟩ := h'
  obtain rfl := Option.some.inj (hunlocks'.addressed.symm.trans hunlocks.addressed)
  obtain ⟨hsession, hpayload, -⟩ := hunlocks.opensWith.unique hunlocks'.opensWith
  have hopened := hunlocks'.opened
  rw [hsession, hpayload, hunlocks.opened] at hopened
  obtain ⟨rfl, rfl⟩ := Prod.mk.inj (Except.ok.inj hopened)
  exact ⟨Except.ok.inj (hplain'.symm.trans hplain), rfl⟩

/-- What an envelope is opened with is the same in both records: the session with its sender, our
identity, and what the key is that it names. -/
structure LooksSame (d : Device) (e : Wire.Envelope) (r r' : Records) : Prop where
  session : r'.session e.sender = r.session e.sender
  current : Option.Rel (fun own next => next.identity = own.identity ∧
    ∀ name, d.namedKey e = some name → next.find? name = own.find? name) r.current r'.current

namespace LooksSame

/-- The one bundle is there if the other is, with the same identity and the same key under that
name. -/
theorem exists_current (h : LooksSame d e r r') {own : Bundle} (hcurrent : r.current = some own) :
    ∃ next, r'.current = some next ∧ next.identity = own.identity ∧
      ∀ name, d.namedKey e = some name → next.find? name = own.find? name := by
  have hrel := h.current
  rw [hcurrent] at hrel
  cases hnext : r'.current with
  | none =>
    rw [hnext] at hrel
    exact nomatch hrel
  | some next =>
    rw [hnext] at hrel
    cases hrel with
    | some hsame => exact ⟨next, rfl, hsame⟩

/-- The same key is used up. -/
theorem usedKey_eq (h : LooksSame d e r r') : d.usedKey r' e = d.usedKey r e := by
  have hrel := h.current
  simp only [usedKey]
  generalize r.current = current, r'.current = current' at hrel
  cases hrel with
  | none => rfl
  | some hsame =>
    simp only [Option.bind_eq_bind, Option.bind_some]
    cases hname : d.namedKey e with
    | none => rfl
    | some name => simp only [Option.filter_some, hsame.2 name hname]

/-- The entry is opened with the same session. -/
theorem opensWith (h : LooksSame d e r r') (hentry : e.entryFor d.id = some entry)
    (hopens : OpensWith S d r e.sender entry opening) :
    ∃ opening', OpensWith S d r' e.sender entry opening' ∧ opening'.session = opening.session ∧
      opening'.payload = opening.payload := by
  cases hopens with
  | message plain stored => exact ⟨_, .message plain (h.session.trans stored), rfl, rfl⟩
  | known handshake decoded current notHeld stored =>
    obtain ⟨next, hnext, -, hfind⟩ := h.exists_current current
    have hnot := (hfind _ (namedKey_of_decode hentry handshake decoded)).trans notHeld
    exact ⟨_, .known handshake decoded hnext hnot (h.session.trans stored), rfl, rfl⟩
  | @fresh m own oneTime secret body mac first session env handshake decoded current held agreed
      split read started =>
    obtain ⟨next, hnext, hidentity, hfind⟩ := h.exists_current current
    have hheld := (hfind _ (namedKey_of_decode hentry handshake decoded)).trans held
    rw [← hidentity] at agreed
    exact ⟨⟨session, m.message,
      some ((next.erase m.oneTimeKey).replenish S d.config.oneTimeKeys env).2.1⟩,
      .fresh handshake decoded hnext hheld agreed split read started, rfl, rfl⟩

/-- An envelope that can be decrypted with the one records can be with the other, to the same end.
-/
theorem opens (h : LooksSame d e r r') (hopens : Opens S d r e now plaintext after) :
    Opens S d r' e now plaintext after := by
  obtain ⟨entry, opening, bodyKey, hunlocks, hplain⟩ := hopens
  obtain ⟨opening', hopens', hsession, hpayload⟩ := h.opensWith hunlocks.addressed hunlocks.opensWith
  refine ⟨entry, opening', bodyKey, ⟨hunlocks.addressed, hopens', ?_⟩, hplain⟩
  rw [hsession, hpayload]
  exact hunlocks.opened

end LooksSame

/-! ## What an envelope leaves -/

variable [LawfulStore σ] {s s' : State σ} {sender : DeviceId}

theorem currentBundle_env {bundle : Bundle} (h : currentBundle s = (.ok bundle, s')) :
    s'.env = s.env := by
  obtain ⟨answer, s₁, hask, h⟩ := bind_run_ok h
  obtain ⟨-, -, henv, -⟩ := ask_ok hask
  cases answer with
  | none => exact nomatch (Prod.mk.inj h).1
  | some bundle =>
    obtain ⟨-, rfl⟩ := Prod.mk.inj h
    exact henv

/-- An entry draws for the key that it uses up, and for nothing else. -/
theorem openEntry_draws (h : d.openEntry S sender entry s = (.ok opening, s')) :
    (opening.bundle = none ∧ s'.env = s.env ∧ ∀ own name, ¬ UsesUp s.records entry own name) ∨
    ∃ own name, UsesUp s.records entry own name ∧
      opening.bundle = some (own.useUp S d.config.oneTimeKeys name s.env).1 ∧
      s'.env = (own.useUp S d.config.oneTimeKeys name s.env).2 := by
  have hopens := openEntry_ok h
  obtain ⟨existing, s₁, hexisting, h⟩ := bind_run_ok h
  obtain ⟨-, hrecords, henv, -⟩ := ask_ok hexisting
  have hsame : s₁.records = s.records := hrecords
  split at h
  next hhandshake =>
    obtain ⟨m, hm, h⟩ := attempt_bind_ok h
    obtain ⟨bundle, s₂, hbundle, h⟩ := bind_run_ok h
    have henv₂ := currentBundle_env hbundle
    obtain ⟨hcurrent, -⟩ := currentBundle_ok hbundle
    rw [hsame] at hcurrent
    cases hheld : bundle.find? m.oneTimeKey with
    | some oneTime =>
      rw [hheld] at h
      obtain ⟨secret, -, h⟩ := attempt_bind_ok h
      obtain ⟨parts, -, h⟩ := attempt_bind_ok h
      obtain ⟨first, -, h⟩ := attempt_bind_ok h
      obtain ⟨session, -, h⟩ := attempt_bind_ok h
      -- the draw is the only link of the chain that moves the environment
      obtain ⟨next, s₃, hdraw, h⟩ := bind_run_ok h
      obtain ⟨hnext, rfl⟩ := Prod.mk.inj hdraw
      obtain rfl := Except.ok.inj hnext
      obtain ⟨hopening, rfl⟩ := Prod.mk.inj h
      obtain rfl := Except.ok.inj hopening
      rw [← henv, ← henv₂]
      exact .inr ⟨bundle, m.oneTimeKey,
        ⟨hhandshake, ⟨m, hm, rfl⟩, hcurrent, Option.isSome_iff_exists.mpr ⟨_, hheld⟩⟩, rfl, rfl⟩
    | none =>
      rw [hheld] at h
      cases existing with
      | none => exact nomatch (Prod.mk.inj h).1
      | some session =>
        obtain ⟨hopening, rfl⟩ := Prod.mk.inj h
        obtain rfl := Except.ok.inj hopening
        refine .inl ⟨rfl, henv₂.trans henv, ?_⟩
        rcases hopens.usesUp_cases with ⟨-, hno⟩ | ⟨_, _, _, -, hnone⟩
        · exact hno
        · exact nomatch hnone
  next hplain =>
    cases existing with
    | none => exact nomatch (Prod.mk.inj h).1
    | some session =>
      obtain ⟨hopening, rfl⟩ := Prod.mk.inj h
      obtain rfl := Except.ok.inj hopening
      exact .inl ⟨rfl, henv, fun own name huses => hplain huses.handshake⟩

/-- What an envelope that was decrypted has done to everything that actions change. -/
structure Accepts (S : Suite) (d : Device) (e : Wire.Envelope) (s : State σ) (plaintext : Bytes)
    (after : Session) (s' : State σ) : Prop where
  opens : Opens S d s.records e s.env.clock plaintext after
  records : s'.records = { s.records with
    session := Function.update s.records.session e.sender (some after)
    current := (spend S d.config.oneTimeKeys (d.usedKey s.records e) s.records.current s.env).1 }
  env : s'.env =
    (spend S d.config.oneTimeKeys (d.usedKey s.records e) s.records.current s.env).2
  unpublished : s'.unpublished = (s.unpublished || (d.usedKey s.records e).isSome)
  healthy : s.Healthy → s'.Healthy

/-- What is drawn for an entry is what the key costs that it uses up. -/
theorem spend_of_openEntry (hentry : e.entryFor d.id = some entry)
    (h : d.openEntry S sender entry s = (.ok opening, s')) :
    opening.bundle.isSome = (d.usedKey s.records e).isSome ∧
      spend S d.config.oneTimeKeys (d.usedKey s.records e) s.records.current s.env =
        (opening.bundle <|> s.records.current, s'.env) := by
  rcases openEntry_draws h with ⟨hbundle, henv, hno⟩ | ⟨own, name, huses, hbundle, henv⟩
  · have hused : d.usedKey s.records e = none := by
      refine Option.eq_none_iff_forall_ne_some.mpr fun name hused => ?_
      obtain ⟨own, huses⟩ := (usedKey_eq_some_iff hentry).mp hused
      exact hno own name huses
    rw [hused, hbundle, henv]
    exact ⟨rfl, rfl⟩
  · rw [(usedKey_eq_some_iff hentry).mpr ⟨own, huses⟩, hbundle, henv, huses.current]
    exact ⟨rfl, rfl⟩

/-- Behind the entry of an envelope that is decrypted nothing is drawn, and all that came of it is
saved. -/
theorem exists_openEntry_of_decrypt (h : d.decrypt S e s = (.ok plaintext, s')) :
    ∃ entry opening s₁ bodyKey after, d.openEntry S e.sender entry s = (.ok opening, s₁) ∧
      Unlocks S d s.records e entry opening s.env.clock bodyKey after ∧
      S.decrypt bodyKey e.iv.bytes e.body = .ok plaintext ∧ s'.env = s₁.env ∧
      s'.records = opening.saved s.records e.sender after ∧
      s'.unpublished = (s.unpublished || opening.bundle.isSome) := by
  unfold decrypt at h
  cases hentry : e.entryFor d.id with
  | none =>
    rw [hentry] at h
    exact nomatch (Prod.mk.inj h).1
  | some entry =>
    rw [hentry] at h
    obtain ⟨opening, s₁, hopen, h⟩ := bind_run_ok h
    have hclock := openEntry_clock S d e.sender entry s
    have hkeeps := openEntry_within keeps_chains (σ := σ) query_keeps S d e.sender entry s
    rw [hopen] at hclock hkeeps
    obtain ⟨now, _, hnow, h⟩ := bind_run_ok h
    obtain ⟨hclock', rfl⟩ := Prod.mk.inj hnow
    obtain rfl := Except.ok.inj hclock'
    obtain ⟨⟨bodyKey, after⟩, hmessage, h⟩ := attempt_bind_ok h
    obtain ⟨plaintext', hplain, h⟩ := attempt_bind_ok h
    -- the time is asked behind the draws of the entry, which take none
    dsimp only at hclock
    rw [hclock] at hmessage
    have hunlocks : Unlocks S d s.records e entry opening s.env.clock bodyKey after :=
      ⟨hentry, openEntry_ok hopen, hmessage⟩
    rcases saves_outcome opening e.sender after plaintext' s₁ with
      ⟨cause, s₂, hrun, -⟩ | ⟨s₂, hrun, henv, hrecords, hflag⟩ | ⟨cause, s₂, hrun, -⟩
    · exact nomatch (Prod.mk.inj (hrun.symm.trans h)).1
    · obtain ⟨hplaintext, rfl⟩ := Prod.mk.inj (hrun.symm.trans h)
      obtain rfl := Except.ok.inj hplaintext
      exact ⟨entry, opening, s₁, bodyKey, after, hopen, hunlocks, hplain, henv,
        hkeeps.1 ▸ hrecords, hkeeps.2 ▸ hflag⟩
    · exact nomatch (Prod.mk.inj (hrun.symm.trans h)).1

/-- What was done for an envelope that is decrypted follows from what its entry draws. -/
theorem decrypt_accepts (h : d.decrypt S e s = (.ok plaintext, s')) :
    ∃ after, Accepts S d e s plaintext after s' := by
  have hhealthy := decrypt_within staysHealthy_chains (fun request => ask_staysHealthy request)
    (fun _ _ h => h) S d e s
  rw [h] at hhealthy
  obtain ⟨entry, opening, s₁, bodyKey, after, hopen, hunlocks, hplain, henv, hrecords, hflag⟩ :=
    exists_openEntry_of_decrypt h
  obtain ⟨hused, hspend⟩ := spend_of_openEntry hunlocks.addressed hopen
  refine ⟨after, ⟨entry, opening, bodyKey, hunlocks, hplain⟩, ?_, ?_, ?_, hhealthy⟩
  · rw [hrecords, hspend, Opening.saved_eq]
  · rw [henv, hspend]
  · rw [hflag, hused]

/-- An envelope that can be decrypted is, on a store that refuses nothing. -/
theorem Opens.decrypts (h : Opens S d s.records e s.env.clock plaintext after)
    (hhealthy : s.Healthy) :
    ∃ s', d.decrypt S e s = (.ok plaintext, s') ∧ Accepts S d e s plaintext after s' := by
  obtain ⟨entry, opening, bodyKey, hunlocks, hplain⟩ := h
  obtain ⟨-, s', hdecrypt, -⟩ := hunlocks.decrypts hhealthy hplain
  obtain ⟨after', haccepts⟩ := decrypt_accepts hdecrypt
  obtain ⟨-, rfl⟩ := Opens.unique ⟨entry, opening, bodyKey, hunlocks, hplain⟩ haccepts.opens
  exact ⟨s', hdecrypt, haccepts⟩

/-- Using a key up takes random bytes for the new one, and no time. -/
theorem clock_spend (S : Suite) (target : Nat) (used : Option Bytes) (current : Option Bundle)
    (env : Environment) : (spend S target used current env).2.clock = env.clock := by
  unfold spend
  split
  next name own => exact (own.erase name).clock_replenish S target env
  next => rfl

theorem Accepts.clock (h : Accepts S d e s plaintext after s') : s'.env.clock = s.env.clock := by
  rw [h.env, clock_spend]

/-! ## Two envelopes -/

variable {e₁ e₂ : Wire.Envelope} {plaintext₁ plaintext₂ : Bytes} {after₁ after₂ : Session}
  {s₁ s₂ s₁₂ : State σ}

/-- The envelopes do not use up the same one-time key. -/
def Apart (d : Device) (r : Records) (e₁ e₂ : Wire.Envelope) : Prop :=
  ∀ name ∈ d.usedKey r e₁, name ∉ d.usedKey r e₂

/-- No key that the bundle has only afterwards is one that the envelope names. -/
def Unforeseen (d : Device) (e : Wire.Envelope) (r r' : Records) : Prop :=
  ∀ own ∈ r.current, ∀ next ∈ r'.current, ∀ k ∈ next.oneTimeKeys, k ∉ own.oneTimeKeys →
    k.pair.publicKey.bytes ∉ d.namedKey e

instance : Decidable (Apart d r e₁ e₂) :=
  inferInstanceAs (Decidable (∀ name ∈ d.usedKey r e₁, name ∉ d.usedKey r e₂))

instance : Decidable (Unforeseen d e r r') :=
  inferInstanceAs (Decidable (∀ own ∈ r.current, ∀ next ∈ r'.current, ∀ k ∈ next.oneTimeKeys,
    k ∉ own.oneTimeKeys → k.pair.publicKey.bytes ∉ d.namedKey e))

theorem Apart.symm (h : Apart d r e₁ e₂) : Apart d r e₂ e₁ := fun name h₂ h₁ => h name h₁ h₂

/-- Two keys are spent in either order. -/
theorem spend_comm (hapart : Apart d r e₁ e₂) (S : Suite) (target : Nat) (env : Environment) :
    let spend₁ := spend S target (d.usedKey r e₁)
    let spend₂ := spend S target (d.usedKey r e₂)
    spend₂ (spend₁ r.current env).1 (spend₁ r.current env).2 =
      spend₁ (spend₂ r.current env).1 (spend₂ r.current env).2 := by
  intro spend₁ spend₂
  cases h₁ : d.usedKey r e₁ with
  | none => simp only [spend₁, h₁, spend]
  | some name =>
    cases h₂ : d.usedKey r e₂ with
    | none => simp only [spend₂, h₂, spend]
    | some other =>
      obtain ⟨-, own, hcurrent, hname⟩ := usedKey_eq_some.mp h₁
      obtain ⟨-, own', hcurrent', hother⟩ := usedKey_eq_some.mp h₂
      obtain rfl := Option.some.inj (hcurrent.symm.trans hcurrent')
      have hne : name ≠ other := fun h => hapart name h₁ (h ▸ h₂)
      have hcomm := Bundle.useUp_comm hne hname hother S target env
      simp only [spend₁, spend₂, h₁, h₂, hcurrent, spend, hcomm]

/-- An envelope has left what another one is opened with. -/
theorem Accepts.looksSame (h : Accepts S d e₁ s plaintext₁ after₁ s₁)
    (hsender : e₁.sender ≠ e₂.sender) (hapart : Apart d s.records e₁ e₂)
    (hfresh : Unforeseen d e₂ s.records s₁.records) : LooksSame d e₂ s.records s₁.records := by
  refine ⟨?_, ?_⟩
  · rw [h.records]
    exact Function.update_of_ne hsender.symm _ _
  · have hcurrent : s₁.records.current =
        (spend S d.config.oneTimeKeys (d.usedKey s.records e₁) s.records.current s.env).1 := by
      rw [h.records]
    cases hused : d.usedKey s.records e₁ with
    | none =>
      rw [hcurrent, hused]
      show Option.Rel _ s.records.current s.records.current
      cases s.records.current with
      | none => exact .none
      | some own => exact .some ⟨rfl, fun _ _ => rfl⟩
    | some name =>
      obtain ⟨-, own, hown, hheld⟩ := usedKey_eq_some.mp hused
      rw [hused, hown] at hcurrent
      have hnext : s₁.records.current =
          some (own.useUp S d.config.oneTimeKeys name s.env).1 := hcurrent
      rw [hown, hnext]
      refine .some ⟨(Bundle.replenish_erase_frame S own name _ s.env).2, fun other hnamed => ?_⟩
      have hne : other ≠ name := by
        rintro rfl
        have hfound : d.usedKey s.records e₂ = some other :=
          usedKey_eq_some.mpr ⟨hnamed, own, hown, hheld⟩
        exact hapart other hused hfound
      refine Bundle.find?_useUp hne fun k hk hnew hsame => ?_
      exact hfresh own hown _ hnext k hk hnew (hsame ▸ hnamed)

/-- An envelope is decrypted behind another one as it is without it. -/
theorem Accepts.behind (h₁ : Accepts S d e₁ s plaintext₁ after₁ s₁)
    (h₂ : Accepts S d e₂ s plaintext₂ after₂ s₂) (hhealthy : s.Healthy)
    (hsame : LooksSame d e₂ s.records s₁.records) :
    ∃ s₁₂, d.decrypt S e₂ s₁ = (.ok plaintext₂, s₁₂) ∧
      Accepts S d e₂ s₁ plaintext₂ after₂ s₁₂ := by
  have hopens := hsame.opens h₂.opens
  rw [← h₁.clock] at hopens
  exact hopens.decrypts (h₁.healthy hhealthy)

/-- What two envelopes have done, one behind the other. -/
theorem Accepts.both (h₁ : Accepts S d e₁ s plaintext₁ after₁ s₁)
    (h₁₂ : Accepts S d e₂ s₁ plaintext₂ after₂ s₁₂)
    (hused : d.usedKey s₁.records e₂ = d.usedKey s.records e₂) :
    let first := spend S d.config.oneTimeKeys (d.usedKey s.records e₁) s.records.current s.env
    let second := spend S d.config.oneTimeKeys (d.usedKey s.records e₂) first.1 first.2
    s₁₂.records = { s.records with
        session := Function.update (Function.update s.records.session e₁.sender (some after₁))
          e₂.sender (some after₂)
        current := second.1 } ∧
      s₁₂.env = second.2 ∧
      s₁₂.unpublished = (s.unpublished || (d.usedKey s.records e₁).isSome ||
        (d.usedKey s.records e₂).isSome) := by
  refine ⟨?_, ?_, ?_⟩
  · rw [h₁₂.records, hused, h₁.env, h₁.records]
  · rw [h₁₂.env, hused, h₁.env, h₁.records]
  · rw [h₁₂.unpublished, hused, h₁.unpublished]

/-- On a store that refuses nothing, two envelopes of different senders that do not use up the same
one-time key, and are each decrypted alone, are both decrypted in either order. The plaintexts are
the same, and so is everything that is left: what is stored, the time and the randomness, and
whether our bundle is to be published. -/
theorem decrypt_comm (hhealthy : s.Healthy) (hsender : e₁.sender ≠ e₂.sender)
    (hapart : Apart d s.records e₁ e₂) (h₁ : d.decrypt S e₁ s = (.ok plaintext₁, s₁))
    (h₂ : d.decrypt S e₂ s = (.ok plaintext₂, s₂))
    (hfresh₁ : Unforeseen d e₁ s.records s₂.records)
    (hfresh₂ : Unforeseen d e₂ s.records s₁.records) :
    ∃ s₁₂ s₂₁, d.decrypt S e₂ s₁ = (.ok plaintext₂, s₁₂) ∧
      d.decrypt S e₁ s₂ = (.ok plaintext₁, s₂₁) ∧ s₁₂.records = s₂₁.records ∧
      s₁₂.env = s₂₁.env ∧ s₁₂.unpublished = s₂₁.unpublished := by
  obtain ⟨after₁, ha₁⟩ := decrypt_accepts h₁
  obtain ⟨after₂, ha₂⟩ := decrypt_accepts h₂
  have hsame₂ := ha₁.looksSame hsender hapart hfresh₂
  have hsame₁ := ha₂.looksSame hsender.symm hapart.symm hfresh₁
  obtain ⟨s₁₂, hdecrypt₂, ha₁₂⟩ := ha₁.behind ha₂ hhealthy hsame₂
  obtain ⟨s₂₁, hdecrypt₁, ha₂₁⟩ := ha₂.behind ha₁ hhealthy hsame₁
  obtain ⟨hrecords₁₂, henv₁₂, hflag₁₂⟩ := ha₁.both ha₁₂ hsame₂.usedKey_eq
  obtain ⟨hrecords₂₁, henv₂₁, hflag₂₁⟩ := ha₂.both ha₂₁ hsame₁.usedKey_eq
  have hspend := spend_comm hapart S d.config.oneTimeKeys s.env
  refine ⟨s₁₂, s₂₁, hdecrypt₂, hdecrypt₁, ?_, ?_, ?_⟩
  · rw [hrecords₁₂, hrecords₂₁, hspend, Function.update_comm hsender]
  · rw [henv₁₂, henv₂₁, hspend]
  · rw [hflag₁₂, hflag₂₁, Bool.or_right_comm]

open Correspondent (alice bob healthy_memory)

/-- Another device that knows Bob. -/
def carol : Correspondent Memory :=
  (Correspondent.newcomer .plain "carol" Correspondent.twoKeys
    (Correspondent.stepping 2)).introducedTo "bob" (Correspondent.plainBundle 3)

/-- Alice and Carol each write to Bob with another of his two one-time keys. -/
theorem decrypt_comm_bob : ∃ e₁ e₂ s₁ s₂ s₁₂ s₂₁,
    (alice.device.encrypt .plain ["bob"] [1] alice.state).1 = .ok e₁ ∧
      (carol.device.encrypt .plain ["bob"] [2] carol.state).1 = .ok e₂ ∧
      (bob.device.usedKey bob.state.records e₁).isSome ∧
      (bob.device.usedKey bob.state.records e₂).isSome ∧
      bob.device.decrypt .plain e₁ bob.state = (.ok [1], s₁) ∧
      bob.device.decrypt .plain e₂ bob.state = (.ok [2], s₂) ∧
      bob.device.decrypt .plain e₂ s₁ = (.ok [2], s₁₂) ∧
      bob.device.decrypt .plain e₁ s₂ = (.ok [1], s₂₁) ∧ s₁₂.records = s₂₁.records ∧
      s₁₂.env = s₂₁.env ∧ s₁₂.unpublished = s₂₁.unpublished := by
  have hrun : ∃ e₁, (alice.device.encrypt .plain ["bob"] [1] alice.state).1 = .ok e₁ ∧
      ∃ e₂, (carol.device.encrypt .plain ["bob"] [2] carol.state).1 = .ok e₂ ∧
        e₁.sender ≠ e₂.sender ∧
        (bob.device.usedKey bob.state.records e₁).isSome ∧
        (bob.device.usedKey bob.state.records e₂).isSome ∧
        Apart bob.device bob.state.records e₁ e₂ ∧
        (bob.device.decrypt .plain e₁ bob.state).1 = .ok [1] ∧
        (bob.device.decrypt .plain e₂ bob.state).1 = .ok [2] ∧
        Unforeseen bob.device e₁ bob.state.records
          (bob.device.decrypt .plain e₂ bob.state).2.records ∧
        Unforeseen bob.device e₂ bob.state.records
          (bob.device.decrypt .plain e₁ bob.state).2.records := by
    decide +kernel
  obtain ⟨e₁, he₁, e₂, he₂, hsender, hused₁, hused₂, hapart, hplain₁, hplain₂, hfresh₁, hfresh₂⟩ :=
    hrun
  have h₁ : bob.device.decrypt .plain e₁ bob.state = (.ok [1], _) := Prod.ext hplain₁ rfl
  have h₂ : bob.device.decrypt .plain e₂ bob.state = (.ok [2], _) := Prod.ext hplain₂ rfl
  obtain ⟨s₁₂, s₂₁, hdecrypt₂, hdecrypt₁, hrecords, henv, hflag⟩ :=
    decrypt_comm (healthy_memory bob) hsender hapart h₁ h₂ hfresh₁ hfresh₂
  exact ⟨e₁, e₂, _, _, s₁₂, s₂₁, he₁, he₂, hused₁, hused₂, h₁, h₂, hdecrypt₂, hdecrypt₁, hrecords,
    henv, hflag⟩

end Device

end EndToEnd

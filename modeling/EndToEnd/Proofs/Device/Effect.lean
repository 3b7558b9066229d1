import EndToEnd.Proofs.Device.Reading

/-!
# What decrypting leaves behind

Whatever the store holds and whichever of its calls fail, there are three endings. Decrypting is
refused and nothing has changed; or the store refuses between the session and the bundle, and only
the session has changed; or the body is decrypted, the session has changed, and the bundle with it if
the envelope used up a one-time key.

Main statements:

- `OpensWith.usesUp_cases`: which entries use up a one-time key;
- `decrypt_effect`: what is stored, and whether the bundle is to be published, after decrypting;
- `current_of_decrypt_error`, `current_of_usesUp`: what becomes of our bundle.
-/

namespace EndToEnd.Device

variable {σ : Type} [Store σ] {S : Suite} {d : Device} {r : Records} {sender : DeviceId}
  {entry : Wire.Entry} {opening : Opening}

/-- The entry is a handshake message that names a one-time key which our bundle holds. -/
structure UsesUp (r : Records) (entry : Wire.Entry) (own : Bundle) (name : Bytes) : Prop where
  handshake : entry.isHandshake = true
  named : ∃ m, Wire.HandshakeMessage.decode entry.key = .ok m ∧ m.oneTimeKey = name
  current : r.current = some own
  held : (own.find? name).isSome

/-- An entry brings a bundle without a one-time key exactly if it uses that key up. -/
theorem OpensWith.usesUp_cases (h : OpensWith S d r sender entry opening) :
    (opening.bundle = none ∧ ∀ own name, ¬ UsesUp r entry own name) ∨
    ∃ own name env, UsesUp r entry own name ∧
      opening.bundle = some ((own.erase name).replenish S d.config.oneTimeKeys env).2.1 := by
  cases h with
  | message plain =>
    exact .inl ⟨rfl, fun own name h => Bool.false_ne_true (plain.symm.trans h.handshake)⟩
  | known _ decoded current notHeld =>
    refine .inl ⟨rfl, fun own name h => ?_⟩
    obtain ⟨m, hm, rfl⟩ := h.named
    obtain rfl := Except.ok.inj (decoded.symm.trans hm)
    obtain rfl := Option.some.inj (current.symm.trans h.current)
    rw [← Option.not_isSome_iff_eq_none] at notHeld
    exact notHeld h.held
  | @fresh m own oneTime secret body mac first session env handshake decoded current held =>
    exact .inr ⟨own, m.oneTimeKey, env,
      ⟨handshake, ⟨m, decoded, rfl⟩, current, Option.isSome_iff_exists.mpr ⟨_, held⟩⟩, rfl⟩

variable [LawfulStore σ]

/-- What decrypting an envelope does to what is stored, for every store and every failure of its
calls. A refusal changes nothing, unless the store refuses to replace the bundle: then the session
with the sender has been replaced already. An answer has replaced that session by the one after the
message, and our bundle exactly if the entry used up a one-time key; only then is the bundle noted
for publication. -/
theorem decrypt_effect (S : Suite) (d : Device) (e : Wire.Envelope) (s : State σ) :
    match d.decrypt S e s with
    | (.error (.store _), s') =>
      Keeps s s' ∨
        ∃ entry opening bodyKey after own name,
          Unlocks S d s.records e entry opening s.env.clock bodyKey after ∧
          UsesUp s.records entry own name ∧
          s'.records = s.records.withSession e.sender after ∧ s'.unpublished = s.unpublished
    | (.error _, s') => Keeps s s'
    | (.ok plaintext, s') =>
      ∃ entry opening bodyKey after,
        Unlocks S d s.records e entry opening s.env.clock bodyKey after ∧
        S.decrypt bodyKey e.iv.bytes e.body = .ok plaintext ∧
        ((∃ own name env, UsesUp s.records entry own name ∧
            s'.records = (s.records.withSession e.sender after).withCurrent
              ((own.erase name).replenish S d.config.oneTimeKeys env).2.1 ∧
            s'.unpublished = true) ∨
          (∀ own name, ¬ UsesUp s.records entry own name) ∧
            s'.records = s.records.withSession e.sender after ∧
            s'.unpublished = s.unpublished) := by
  rcases decrypt_outcome S d e s with ⟨cause, s', hdecrypt, hkeeps⟩ |
    ⟨entry, opening, bodyKey, after, hunlocks, ⟨plaintext, s', hdecrypt, hplain, hrecords, hflag⟩ |
      ⟨cause, s', hdecrypt, hsome, -, hrecords, hflag⟩⟩
  all_goals rw [hdecrypt]
  · cases cause with
    | store => exact .inl hkeeps
    | _ => exact hkeeps
  · refine ⟨entry, opening, bodyKey, after, hunlocks, hplain, ?_⟩
    -- there is a bundle to save exactly if a one-time key is used up
    rcases hunlocks.opensWith.usesUp_cases with ⟨hnone, hno⟩ | ⟨own, name, env, huses, hbundle⟩
    · rw [Opening.saved, hnone] at hrecords
      rw [hnone, Option.isSome_none, Bool.or_false] at hflag
      exact .inr ⟨hno, hrecords, hflag⟩
    · rw [Opening.saved, hbundle] at hrecords
      rw [hbundle, Option.isSome_some, Bool.or_true] at hflag
      exact .inl ⟨own, name, env, huses, hrecords, hflag⟩
  · rcases hunlocks.opensWith.usesUp_cases with ⟨hnone, -⟩ | ⟨own, name, env, huses, -⟩
    · exact absurd hnone hsome
    · exact .inr ⟨entry, opening, bodyKey, after, own, name, hunlocks, huses, hrecords, hflag⟩

/-- A refusal leaves our bundle as it is. -/
theorem current_of_decrypt_error {e : Wire.Envelope} {s s' : State σ} {cause : DeviceError}
    (h : d.decrypt S e s = (.error cause, s')) : s'.records.current = s.records.current := by
  rcases decrypt_cases S d e s with ⟨cause', s'', hdecrypt, hkeeps⟩ |
    ⟨_, _, _, _, _, -, ⟨_, s'', hdecrypt, -⟩ | ⟨_, s'', hdecrypt, -, -, hrecords⟩⟩
  · obtain ⟨-, rfl⟩ := Prod.mk.inj (hdecrypt.symm.trans h)
    rw [hkeeps.1]
  · cases hdecrypt.symm.trans h
  · obtain ⟨-, rfl⟩ := Prod.mk.inj (hdecrypt.symm.trans h)
    rw [hrecords]
    rfl

/-- An entry uses one key of one bundle up. -/
theorem UsesUp.unique {own own' : Bundle} {name name' : Bytes} (h : UsesUp r entry own name)
    (h' : UsesUp r entry own' name') : own' = own ∧ name' = name := by
  obtain ⟨m, hm, rfl⟩ := h.named
  obtain ⟨m', hm', rfl⟩ := h'.named
  obtain rfl := Except.ok.inj (hm'.symm.trans hm)
  exact ⟨Option.some.inj (h'.current.symm.trans h.current), rfl⟩

/-- An answer to an entry that uses a one-time key up leaves the bundle without it. -/
theorem current_of_usesUp {e : Wire.Envelope} {s s' : State σ} {plaintext : Bytes} {own : Bundle}
    {name : Bytes} (h : d.decrypt S e s = (.ok plaintext, s'))
    (hentry : e.entryFor d.id = some entry) (huses : UsesUp s.records entry own name) :
    ∃ env, s'.records.current =
      some ((own.erase name).replenish S d.config.oneTimeKeys env).2.1 := by
  obtain ⟨entry', opening, _, _, hunlocks, -, hrecords⟩ := decrypt_ok h
  obtain rfl := Option.some.inj (hentry.symm.trans hunlocks.addressed)
  rcases hunlocks.opensWith.usesUp_cases with ⟨-, hno⟩ | ⟨own', name', env, huses', hbundle⟩
  · exact absurd huses (hno own name)
  · obtain ⟨rfl, rfl⟩ := huses.unique huses'
    rw [Opening.saved, hbundle] at hrecords
    exact ⟨env, by rw [hrecords]; rfl⟩

end EndToEnd.Device

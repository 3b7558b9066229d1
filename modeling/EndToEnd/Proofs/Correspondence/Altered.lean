import EndToEnd.Proofs.Correspondence.Introduction

/-!
# Envelopes with another body

The ratchet authenticates the key of a body and not the body. So an envelope whose initialisation
vector or body was altered on its way is opened with the key of the genuine one. If the padding is
wrong then, the envelope is refused and nothing has changed; if it is not, whatever the body says is
what was read.

Main statements:

- `decrypt_altered`: what a device that can read an envelope makes of an altered one;
- `opened_altered_vector`: an altered initialisation vector is read as another text.
-/

namespace EndToEnd

namespace Device

variable {σ : Type} [Store σ] [LawfulStore σ] {S : Suite} {d : Device} {e : Wire.Envelope}
  {s : State σ} {plaintext : Bytes}

/-- Bytes that a body is decrypted under are a key. -/
theorem decrypt_eq_ok {key : Bytes} {iv : Block} {body : Bytes} :
    S.decrypt key iv.bytes body = .ok plaintext ↔
      ∃ bodyKey : Key, key = bodyKey.bytes ∧ S.decryptWith bodyKey iv body = .ok plaintext := by
  constructor
  · intro h
    obtain ⟨⟨bodyKey, vector⟩, hinputs, hplain⟩ := bind_eq_ok.mp h
    unfold Suite.cipherInputs at hinputs
    rw [Octets.ofBytes?_bytes] at hinputs
    split at hinputs
    next found _ hkey hvector =>
      obtain ⟨rfl, rfl⟩ := Prod.mk.inj (Except.ok.inj hinputs)
      obtain rfl := Option.some.inj hvector
      exact ⟨_, Octets.ofBytes?_eq_some_iff.mp hkey, hplain⟩
    next => exact nomatch hinputs
  · rintro ⟨bodyKey, rfl, hplain⟩
    rw [Suite.decrypt_bytes, hplain]

/-- A body is refused for its padding only. -/
theorem padding_of_decryptWith {key : Key} {iv : Block} {body : Bytes} {cause : CryptoError}
    (h : S.decryptWith key iv body = .error cause) : cause = .padding := by
  unfold Suite.decryptWith at h
  split at h
  next => cases h
  next => exact (Except.error.inj h).symm

/-- A device that can read an envelope opens one with another initialisation vector or another body
under the same key. It reads what that gives, or, if that does not end in a padding, refuses with
nothing changed: it can still read the genuine envelope. -/
theorem decrypt_altered (hhealthy : s.Healthy) (h : (d.decrypt S e s).1 = .ok plaintext) :
    ∃ bodyKey : Key, S.decryptWith bodyKey e.iv e.body = .ok plaintext ∧
      ∀ iv body, match S.decryptWith bodyKey iv body with
        | .ok other => (d.decrypt S { e with iv, body } s).1 = .ok other
        | .error _ => ∃ s', d.decrypt S { e with iv, body } s = (.error (.payload .padding), s') ∧
            Keeps s s' ∧ (d.decrypt S e s').1 = .ok plaintext := by
  rcases decrypt_outcome S d e s with ⟨cause, s', hdecrypt, -⟩ |
    ⟨entry, opening, key, after, hunlocks, ⟨found, s', hdecrypt, hplain, -⟩ |
      ⟨cause, s', hdecrypt, -⟩⟩
  all_goals rw [hdecrypt] at h
  · cases h
  · obtain rfl := Except.ok.inj h
    obtain ⟨bodyKey, rfl, hplain'⟩ := decrypt_eq_ok.mp hplain
    refine ⟨bodyKey, hplain', fun iv body => ?_⟩
    -- The entry is opened as before: neither the vector nor the body has a part in that.
    have haltered : Unlocks S d s.records { e with iv, body } entry opening s.env.clock
        bodyKey.bytes after := ⟨hunlocks.addressed, hunlocks.opensWith, hunlocks.opened⟩
    have hbody := S.decrypt_bytes bodyKey iv body
    rcases haltered.decrypt_cases with ⟨hno, -⟩ | ⟨other, s₁, hother, hdecrypt₁⟩ |
      ⟨cause, s₁, hcause, hdecrypt₁, hkeeps, hclock, hhealthy₁⟩
    · exact absurd hhealthy hno
    · rw [hbody] at hother
      rw [hother]
      exact congrArg Prod.fst hdecrypt₁
    · rw [hbody] at hcause
      rw [hcause]
      obtain rfl := padding_of_decryptWith hcause
      refine ⟨s₁, hdecrypt₁, hkeeps, ?_⟩
      have hgenuine : Unlocks S d s₁.records e entry opening s₁.env.clock bodyKey.bytes after := by
        rw [hkeeps.1, hclock]
        exact hunlocks
      rcases hgenuine.decrypt_cases with ⟨hno, -⟩ | ⟨again, s₂, hagain, hdecrypt₂⟩ |
        ⟨cause, s₂, hcause, -⟩
      · exact absurd (hhealthy₁ hhealthy) hno
      · obtain rfl := Except.ok.inj (hplain.symm.trans hagain)
        exact congrArg Prod.fst hdecrypt₂
      · cases hplain.symm.trans hcause
  · cases h

end Device

namespace Correspondence

open Correspondent

/-- Bob reads Alice's envelope. Without its body he refuses it, and can still read it. -/
theorem decrypt_altered_bob :
    let x := (start alice bob).run .plain [.write .initiator [1]]
    ∃ p, x.sent .initiator = [p] ∧ (x.opened .plain .responder p).1 = .ok [1] ∧
      ∃ bodyKey : Key, Suite.plain.decryptWith bodyKey p.envelope.iv p.envelope.body = .ok [1] ∧
        ∀ iv body, match Suite.plain.decryptWith bodyKey iv body with
          | .ok other => ((x.party .responder).device.decrypt .plain
              { p.envelope with iv, body } (x.party .responder).state).1 = .ok other
          | .error _ => ∃ s', (x.party .responder).device.decrypt .plain
              { p.envelope with iv, body } (x.party .responder).state =
                (.error (.payload .padding), s') ∧
              Device.Keeps (x.party .responder).state s' ∧
              ((x.party .responder).device.decrypt .plain p.envelope s').1 = .ok [1] := by
  have hrun :
      let x := (start alice bob).run .plain [.write .initiator [1]]
      (x.sent .initiator).length = 1 ∧
        ∀ p ∈ x.sent .initiator, (x.opened .plain .responder p).1 = .ok [1] := by
    decide +kernel
  obtain ⟨hlength, hopened⟩ := hrun
  obtain ⟨p, hsent⟩ := List.length_eq_one_iff.mp hlength
  have hread := hopened p (hsent ▸ List.mem_singleton_self p)
  exact ⟨p, hsent, hread, Device.decrypt_altered (healthy_memory _) hread⟩

/-- Bob reads Alice's envelope with one bit of its initialisation vector turned, and reads another
text. -/
theorem opened_altered_vector :
    let x := (start alice bob).run .plain [.write .initiator [1]]
    ∃ p iv, x.sent .initiator = [p] ∧ (x.opened .plain .responder p).1 = .ok [1] ∧
      iv ≠ p.envelope.iv ∧
      (x.opened .plain .responder { p with envelope.iv := iv }).1 = .ok [0] := by
  have hrun :
      let x := (start alice bob).run .plain [.write .initiator [1]]
      let turned : Block := ⟨1 :: List.replicate 15 0, rfl⟩
      (x.sent .initiator).length = 1 ∧ ∀ p ∈ x.sent .initiator,
        (x.opened .plain .responder p).1 = .ok [1] ∧
        p.envelope.iv.xor turned ≠ p.envelope.iv ∧
        (x.opened .plain .responder
          { p with envelope.iv := p.envelope.iv.xor turned }).1 = .ok [0] := by
    decide +kernel
  obtain ⟨hlength, hopened⟩ := hrun
  obtain ⟨p, hsent⟩ := List.length_eq_one_iff.mp hlength
  obtain ⟨hread, hother, haltered⟩ := hopened p (hsent ▸ List.mem_singleton_self p)
  exact ⟨p, _, hsent, hread, hother, haltered⟩

end Correspondence

end EndToEnd

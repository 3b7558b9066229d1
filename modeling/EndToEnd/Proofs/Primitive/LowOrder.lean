import EndToEnd.Proofs.Handshake

/-!
# Keys that contribute nothing

An agreement is refused if the public key is a point of low order: whatever the private key is, the
two share only zero. Bytes from a peer are a key as soon as they have the right length, so such a
key gets as far as the first agreement with it.

Main statements:

- `Handshake.initiatorSecret_cases`: a handshake is refused for a key of the peer only;
- `Curve25519.sharedSecret_of_coordinate_eq_zero`: no private key agrees with the point zero.
-/

namespace EndToEnd

namespace Suite

/-- Every private key agrees with the public key. -/
def Contributes (S : Suite) (their : Key) : Prop := ∀ secret, (S.sharedSecret secret their).isSome

/-- Which public keys are refused does not depend on the private key. -/
def RefusesByPublicKey (S : Suite) : Prop :=
  ∀ secret secret' their,
    (S.sharedSecret secret their).isSome → (S.sharedSecret secret' their).isSome

/-- A key that one private key refuses is refused by all. -/
theorem RefusesByPublicKey.sharedSecret_eq_none {S : Suite} (hS : S.RefusesByPublicKey) {their : Key}
    (hno : ¬ S.Contributes their) (secret : Key) : S.sharedSecret secret their = none := by
  cases hshared : S.sharedSecret secret their with
  | none => rfl
  | some shared =>
    exact absurd (fun secret' => hS secret secret' their (hshared ▸ rfl)) hno

end Suite

variable {S : Suite}

/-! ## Agreements -/

namespace KeyPair

variable {pair : KeyPair} {their shared : Key}

/-- A pair with a private half agrees, unless the public key is one that some private key refuses.
-/
theorem agree_cases (hprivate : pair.hasPrivate = true) (their : Key) :
    (∃ shared, pair.agree S their.bytes = .ok shared) ∨
      (pair.agree S their.bytes = .error .nonContributory ∧ ¬ S.Contributes their) := by
  obtain ⟨secret, hsecret⟩ := Option.isSome_iff_exists.mp hprivate
  rw [agree, hsecret]
  simp only [EndToEnd.agree, Key.parse_bytes, ok_bind]
  cases hshared : S.sharedSecret secret their with
  | some shared => exact .inl ⟨shared, rfl⟩
  | none =>
    refine .inr ⟨rfl, fun h => ?_⟩
    have hagreed := h secret
    rw [hshared] at hagreed
    exact absurd hagreed Bool.false_ne_true

/-- With a public key that contributes every private key agrees. -/
theorem agree_of_contributes (hprivate : pair.hasPrivate = true) (h : S.Contributes their) :
    ∃ shared, pair.agree S their.bytes = .ok shared :=
  (agree_cases hprivate their).resolve_right fun hno => hno.2 h

/-- No pair with a private half agrees with a key that every private key refuses. -/
theorem agree_of_refused (hprivate : pair.hasPrivate = true)
    (hrefused : ∀ own, S.sharedSecret own their = none) :
    pair.agree S their.bytes = .error .nonContributory := by
  obtain ⟨secret, hsecret⟩ := Option.isSome_iff_exists.mp hprivate
  rw [agree, hsecret]
  simp only [EndToEnd.agree, Key.parse_bytes, ok_bind, hrefused]

/-- An agreement is one of a private key. -/
theorem exists_sharedSecret_of_agree (h : pair.agree S their.bytes = .ok shared) :
    ∃ own, (S.sharedSecret own their).isSome := by
  rw [agree] at h
  cases hown : pair.privateKey with
  | none =>
    rw [hown] at h
    exact nomatch h
  | some own =>
    rw [hown] at h
    simp only [EndToEnd.agree, Key.parse_bytes, ok_bind] at h
    refine ⟨own, ?_⟩
    cases hshared : S.sharedSecret own their with
    | some shared => rfl
    | none =>
      rw [hshared] at h
      exact nomatch h

/-- What one pair has agreed with, every private key agrees with. -/
theorem contributes_of_agree (hS : S.RefusesByPublicKey)
    (h : pair.agree S their.bytes = .ok shared) : S.Contributes their := by
  obtain ⟨own, hown⟩ := exists_sharedSecret_of_agree h
  exact fun secret => hS own secret their hown

end KeyPair

namespace Handshake

variable {identity ephemeral : KeyPair} {theirIdentity theirOneTime : Key}

/-- The handshake of pairs with private halves is refused for a key of the peer only. -/
theorem initiatorSecret_cases (hidentity : identity.hasPrivate = true)
    (hephemeral : ephemeral.hasPrivate = true) (theirIdentity theirOneTime : Key) :
    (∃ secret,
      initiatorSecret S identity ephemeral theirIdentity.bytes theirOneTime.bytes = .ok secret) ∨
    (initiatorSecret S identity ephemeral theirIdentity.bytes theirOneTime.bytes =
        .error .nonContributory ∧
      ¬(S.Contributes theirIdentity ∧ S.Contributes theirOneTime)) := by
  unfold initiatorSecret
  rcases KeyPair.agree_cases hephemeral theirIdentity with ⟨first, hfirst⟩ | ⟨hfirst, hno⟩
  · rcases KeyPair.agree_cases hidentity theirOneTime with ⟨second, hsecond⟩ | ⟨hsecond, hno⟩
    · rcases KeyPair.agree_cases hephemeral theirOneTime with ⟨third, hthird⟩ | ⟨hthird, hno⟩
      · exact .inl ⟨_, by rw [hfirst, hsecond, hthird]; rfl⟩
      · exact .inr ⟨by rw [hfirst, hsecond, hthird]; rfl, fun h => hno h.2⟩
    · exact .inr ⟨by rw [hfirst, hsecond]; rfl, fun h => hno h.2⟩
  · exact .inr ⟨by rw [hfirst]; rfl, fun h => hno h.1⟩

/-- A handshake agrees with the peer's identity key first. -/
theorem exists_sharedSecret_of_initiatorSecret {secret : Bytes}
    (h : initiatorSecret S identity ephemeral theirIdentity.bytes theirOneTime.bytes = .ok secret) :
    ∃ own, (S.sharedSecret own theirIdentity).isSome := by
  obtain ⟨first, hfirst, -⟩ := bind_eq_ok.mp h
  exact KeyPair.exists_sharedSecret_of_agree hfirst

end Handshake

/-! ## The point zero -/

namespace Curve25519

theorem mul_zero_left (n : Nat) : mul 0 n = 0 := by rw [mul, Nat.zero_mul, Nat.zero_mod]

theorem sub_self (n : Nat) : sub n n = 0 := by rw [sub, Nat.add_sub_cancel_left, Nat.mod_self]

/-- Zero may be added instead of subtracted. -/
theorem sub_zero_eq_add (n : Nat) : sub n 0 = add n 0 := by
  rw [sub, add, Nat.sub_zero, Nat.add_mod_right, Nat.add_zero]

/-- A power of zero stays zero once the product is. -/
theorem power_zero (bits exponent : Nat) : power bits 0 0 exponent = 0 := by
  induction bits generalizing exponent with
  | zero => rfl
  | succ bits ih => simp only [power, mul_zero_left, ite_self, ih]

/-- Zero has no inverse, and the power that stands for it is zero. -/
theorem inverse_zero : inverse 0 = 0 := by
  have hodd : (prime - 2) % 2 = 1 := by decide +kernel
  have hfirst : power (254 + 1) 1 0 (prime - 2) = power 254 0 0 ((prime - 2) / 2) := by
    rw [power, if_pos hodd]
    rfl
  exact hfirst.trans (power_zero 254 _)

/-- Both points are at infinity, which is where the ladder goes from the point zero. -/
def Rungs.AtInfinity (r : Rungs) : Prop := r.z₂ = 0 ∧ r.z₃ = 0

/-- From the point zero, a step from infinity stays there: doubling squares the same number twice,
and the sum is scaled by zero. -/
theorem Rungs.AtInfinity.step {r : Rungs} (h : r.AtInfinity) (bit : Bool) :
    (r.step 0 bit).AtInfinity := by
  obtain ⟨x₂, z₂, x₃, z₃⟩ := r
  obtain ⟨rfl, rfl⟩ : z₂ = 0 ∧ z₃ = 0 := h
  cases bit with
  | false => exact ⟨by simp only [Rungs.step, Bool.false_eq_true, if_false, sub_zero_eq_add,
      sub_self, mul_zero_left], mul_zero_left _⟩
  | true => exact ⟨mul_zero_left _, by simp only [Rungs.step, if_true, sub_zero_eq_add, sub_self,
      mul_zero_left]⟩

/-- Climbing from infinity leads nowhere else. -/
theorem Rungs.AtInfinity.climb {r : Rungs} (h : r.AtInfinity) (scalar bits : Nat) :
    (Rungs.climb 0 scalar bits r).AtInfinity := by
  induction bits generalizing r with
  | zero => exact h
  | succ bits ih => exact ih (h.step _)

/-- The first step from the point zero leads to infinity, whichever the bit is. -/
theorem Rungs.atInfinity_step_zero (bit : Bool) : (Rungs.step 0 ⟨1, 0, 0, 1⟩ bit).AtInfinity := by
  cases bit <;> exact ⟨by decide +kernel, by decide +kernel⟩

/-- From the point zero the first rung is at infinity already. -/
theorem Rungs.atInfinity_climb_zero (scalar bits : Nat) :
    (Rungs.climb 0 scalar (bits + 1) ⟨1, 0, 0, 1⟩).AtInfinity :=
  (atInfinity_step_zero (scalar.testBit bits)).climb scalar bits

/-- The point zero scaled is zero. -/
theorem scale_zero (secret : Key) : scale secret 0 = .replicate 32 0 := by
  have hinfinity := (Rungs.atInfinity_climb_zero (clamp secret) 254).1
  have hzero : Octets.ofNatLE 32 0 = .replicate 32 0 := by decide
  unfold scale
  simp only [hinfinity, inverse_zero, mul, Nat.mul_zero, Nat.zero_mod, hzero]

/-- No private key agrees with the point zero. -/
theorem sharedSecret_of_coordinate_eq_zero {their : Key} (h : coordinate their = 0)
    (secret : Key) : sharedSecret secret their = none := by
  simp only [sharedSecret, h, scale_zero, if_true]

end Curve25519

/-- The suite of the protocol refuses the key zero. -/
theorem Suite.sharedSecret_standard_zero (secret : Key) :
    standard.sharedSecret secret (.replicate 32 0) = none := by
  have hzero : Curve25519.coordinate (.replicate 32 0) = 0 := by decide
  simp only [standard, Curve25519.sharedSecret_of_coordinate_eq_zero hzero]

end EndToEnd

import EndToEnd.Proofs.Primitive.Chaining
import EndToEnd.Proofs.Primitive.LowOrder

/-!
# The plain suite

A suite that hides nothing: private keys are public, two keys agree on their exclusive or, the keyed
hash is a polynomial in the bytes, and the cipher leaves a block as it is. It has every law that the
protocol asks of its primitives, and its runs are short enough to be written out, so what the laws of
the protocol say of a run can be seen on one.

Main statements: `plain_cipherUndoes`, `plain_agreesWith`.
-/

namespace EndToEnd

namespace Suite

/-- The polynomial of the bytes at a small point, the key's bytes first. -/
def plainMac : KeyedHash := fun key message =>
  .ofNatLE 32 ((key ++ message).foldl (fun n b => 31 * n + b.toNat) 0)

/-- The suite that hides nothing. -/
def plain : Suite where
  publicKey secret := secret
  sharedSecret secret their := some (secret.xor their)
  mac := plainMac
  cipher _ := ⟨fun block => block, fun block => block⟩

/-- A cipher that does nothing undoes itself. -/
theorem plain_cipherUndoes : plain.CipherUndoes := fun _ _ => rfl

/-- Any two key pairs agree. -/
theorem plain_agreesWith {p q : KeyPair} (hp : p.privateKey = some p.publicKey)
    (hq : q.privateKey = some q.publicKey) : p.AgreesWith plain q := by
  have hagree {p : KeyPair} (hp : p.privateKey = some p.publicKey) (their : Key) :
      p.agree plain their.bytes = .ok (p.publicKey.xor their) := by
    rw [KeyPair.agree, hp]
    show agree plain their.bytes p.publicKey.bytes = _
    rw [agree, Key.parse_bytes, Key.parse_bytes]
    rfl
  rw [KeyPair.AgreesWith, hagree hp, hagree hq]
  refine congrArg Except.ok (Octets.ext ?_)
  show List.zipWith _ _ _ = List.zipWith _ _ _
  rw [List.zipWith_comm]
  simp only [UInt8.xor_comm]

/-- The plain suite, but for the key zero, which is refused. -/
def plainNonzero : Suite :=
  { plain with
    sharedSecret := fun secret their =>
      if their = .replicate 32 0 then none else plain.sharedSecret secret their }

/-- Only the key zero is refused, whatever the private key. -/
theorem plainNonzero_refusesByPublicKey : plainNonzero.RefusesByPublicKey := by
  intro secret secret' their h
  by_cases hzero : their = .replicate 32 0
  · simp [plainNonzero, hzero] at h
  · simp [plainNonzero, hzero, plain]

/-- Every key but zero contributes. -/
theorem plainNonzero_contributes {their : Key} (h : their ≠ .replicate 32 0) :
    plainNonzero.Contributes their := by
  intro secret
  simp [plainNonzero, h, plain]

end Suite

end EndToEnd

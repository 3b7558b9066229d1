import EndToEnd.Bytes

/-!
# X25519

The agreement function: a private scalar and the u-coordinate of a point on the Montgomery curve
`v² = u³ + 486662 u² + u` over the integers modulo `2²⁵⁵ - 19`, to the u-coordinate of the scaled
point. Coordinates are projective, so a ladder of 255 steps needs one division only, at its end.
-/

namespace EndToEnd.Curve25519

/-- The prime of the field. -/
def prime : Nat := Nat.pow 2 255 - 19

/-- Sum in the field. -/
@[inline] def add (x y : Nat) : Nat := (x + y) % prime

/-- Difference in the field, of reduced numbers. -/
@[inline] def sub (x y : Nat) : Nat := (x + prime - y) % prime

/-- Product in the field. -/
@[inline] def mul (x y : Nat) : Nat := x * y % prime

/-- `acc` times the power of `base` given by the `bits` low bits of the exponent. -/
def power : (bits : Nat) → (acc base exponent : Nat) → Nat
  | 0, acc, _, _ => acc
  | bits + 1, acc, base, exponent =>
    power bits (if exponent % 2 = 1 then mul acc base else acc) (mul base base) (exponent / 2)

/-- The inverse in the field, by Fermat's little theorem; zero for zero. -/
def inverse (x : Nat) : Nat := power 255 1 x (prime - 2)

/-- Two points in projective coordinates whose difference is the ladder's base point. -/
structure Rungs where
  x₂ : Nat
  z₂ : Nat
  x₃ : Nat
  z₃ : Nat

/-- One step: the sum of both points, beside the double of the one that the scalar's bit selects. -/
def Rungs.step (u : Nat) (r : Rungs) (bit : Bool) : Rungs :=
  let (x, z, x', z') := if bit then (r.x₃, r.z₃, r.x₂, r.z₂) else (r.x₂, r.z₂, r.x₃, r.z₃)
  let a := add x z
  let aa := mul a a
  let b := sub x z
  let bb := mul b b
  let e := sub aa bb
  let c := add x' z'
  let d := sub x' z'
  let da := mul d a
  let cb := mul c b
  let s := add da cb
  let t := sub da cb
  let sum := (mul s s, mul u (mul t t))
  let double := (mul aa bb, mul e (add aa (mul 121665 e)))
  if bit then ⟨sum.1, sum.2, double.1, double.2⟩ else ⟨double.1, double.2, sum.1, sum.2⟩

/-- The steps for the `bits` low bits of a scalar, highest first. -/
def Rungs.climb (u scalar : Nat) : (bits : Nat) → Rungs → Rungs
  | 0, r => r
  | bits + 1, r => climb u scalar bits (r.step u (scalar.testBit bits))

/-- The scalar of a private key: a multiple of eight between `2²⁵⁴` and `2²⁵⁵`. -/
def clamp (key : Key) : Nat :=
  Bytes.natLE key.bytes % Nat.pow 2 254 / 8 * 8 + Nat.pow 2 254

/-- The coordinate that a public key stands for. Its highest bit is ignored. -/
def coordinate (key : Key) : Nat :=
  Bytes.natLE key.bytes % Nat.pow 2 255 % prime

/-- The point with coordinate `u` scaled by a private key. -/
def scale (secret : Key) (u : Nat) : Key :=
  let r := Rungs.climb u (clamp secret) 255 ⟨1, 0, u, 1⟩
  Octets.ofNatLE 32 (mul r.x₂ (inverse r.z₂))

/-- The public key of a private key: the base point, scaled. -/
def publicKey (secret : Key) : Key := scale secret 9

/-- The secret that a private key shares with a public one. A point of low order shares nothing. -/
def sharedSecret (secret their : Key) : Option Key :=
  let shared := scale secret (coordinate their)
  if shared = Octets.replicate 32 0 then none else some shared

end EndToEnd.Curve25519

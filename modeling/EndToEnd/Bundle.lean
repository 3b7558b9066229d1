import EndToEnd.Environment
import EndToEnd.Wire.Document

/-!
# Key bundles

A bundle is an identity key and a list of one-time keys. Ours holds private halves; one that a peer
has published holds public halves only.

One-time keys are numbered in the order in which they are generated, and a number is taken from a
counter that removals do not turn back. Keys are looked up by their public half, and of two equal
ones the first counts.
-/

namespace EndToEnd

/-- A one-time key and the number it is published under. -/
structure OneTimeKey where
  id : UInt32
  pair : KeyPair
deriving DecidableEq

namespace OneTimeKey

/-- The key without its private half. -/
def toPublic (k : OneTimeKey) : OneTimeKey := ⟨k.id, k.pair.toPublic⟩

/-- The key as it is published. -/
def publish (k : OneTimeKey) : Wire.PublishedKey := ⟨k.id, k.pair.publicKey.bytes⟩

/-- A key that a peer has published. -/
def ofPublished (k : Wire.PublishedKey) : Except CryptoError OneTimeKey :=
  (KeyPair.ofPublicBytes k.key).map (⟨k.id, ·⟩)

/-- Whether the bytes are the key's public half. -/
def isNamed (publicKey : Bytes) (k : OneTimeKey) : Bool := k.pair.publicKey.bytes == publicKey

/-- The number after a key's own, or the last one. -/
def idAfter (k : OneTimeKey) : UInt32 := if k.id = 0xffffffff then k.id else k.id + 1

end OneTimeKey

/-- The identity key and the one-time keys of a device. -/
structure Bundle where
  device : DeviceId
  identity : KeyPair
  oneTimeKeys : List OneTimeKey
  /-- The number of the next one-time key. -/
  nextId : UInt32
deriving DecidableEq

namespace Bundle

/-! ## Our own bundle -/

/-- `count` fresh one-time keys behind the ones that are there. After the last number the count
starts again from zero. -/
def addKeys (S : Suite) : (count : Nat) → Bundle → Environment → Bundle × Environment
  | 0, b, env => (b, env)
  | count + 1, b, env =>
    let (pair, env) := env.drawKeyPair S
    addKeys S count
      { b with oneTimeKeys := b.oneTimeKeys ++ [⟨b.nextId, pair⟩], nextId := b.nextId + 1 } env

/-- How many one-time keys are missing. -/
def missing (b : Bundle) (target : Nat) : Nat := target - b.oneTimeKeys.length

/-- The bundle filled up with fresh one-time keys, and how many these are. -/
def replenish (S : Suite) (b : Bundle) (target : Nat) (env : Environment) :
    Nat × Bundle × Environment :=
  let count := b.missing target
  (count, addKeys S count b env)

@[simp] theorem replenish_fst (S : Suite) (b : Bundle) (target : Nat) (env : Environment) :
    (b.replenish S target env).1 = b.missing target := rfl

@[simp] theorem replenish_snd (S : Suite) (b : Bundle) (target : Nat) (env : Environment) :
    (b.replenish S target env).2 = addKeys S (b.missing target) b env := rfl

/-- Adding keys appends exactly as many as are asked for. -/
theorem length_addKeys (S : Suite) (count : Nat) (b : Bundle) (env : Environment) :
    (addKeys S count b env).1.oneTimeKeys.length = b.oneTimeKeys.length + count := by
  induction count generalizing b env with
  | zero => rfl
  | succ count ih =>
    rw [addKeys, ih, List.length_append, List.length_singleton, Nat.add_assoc, Nat.add_comm 1]

/-- A bundle that has enough one-time keys keeps what it has; another gets as many as asked for. -/
theorem length_replenish (S : Suite) (b : Bundle) (target : Nat) (env : Environment) :
    (b.replenish S target env).2.1.oneTimeKeys.length = max b.oneTimeKeys.length target := by
  rw [replenish_snd, length_addKeys, missing]
  omega

/-- A fresh bundle: a random device, an identity key and one-time keys. -/
def generate (S : Suite) (oneTimeKeys : Nat) (env : Environment) : Bundle × Environment :=
  let (id, env) := env.drawNat128
  let (identity, env) := env.drawKeyPair S
  (replenish S ⟨.ofNat id, identity, [], 0⟩ oneTimeKeys env).2

/-- The one-time key of a public half. -/
def find? (b : Bundle) (publicKey : Bytes) : Option KeyPair :=
  (b.oneTimeKeys.find? (·.isNamed publicKey)).map (·.pair)

/-- The bundle without the one-time key of a public half. -/
def erase (b : Bundle) (publicKey : Bytes) : Bundle :=
  { b with oneTimeKeys := b.oneTimeKeys.eraseP (·.isNamed publicKey) }

/-- The one-time key of a public half taken out of the bundle, if it is there, and what is left. -/
def remove (b : Bundle) (publicKey : Bytes) : Option KeyPair × Bundle :=
  (b.find? publicKey, b.erase publicKey)

/-! ## Publishing -/

/-- The bundle without private halves. -/
def toPublic (b : Bundle) : Bundle :=
  { b with identity := b.identity.toPublic, oneTimeKeys := b.oneTimeKeys.map (·.toPublic) }

/-- The bundle as it is published. -/
def publish (b : Bundle) : Wire.PublishedBundle :=
  ⟨b.device, b.identity.publicKey.bytes, b.oneTimeKeys.map (·.publish)⟩

/-- Private halves make no difference to what is published. -/
theorem publish_toPublic (b : Bundle) : b.toPublic.publish = b.publish := by
  simp only [publish, toPublic, List.map_map]
  rfl

/-- A bundle that a peer has published. -/
def ofPublished (p : Wire.PublishedBundle) : Except CryptoError Bundle := do
  let identity ← KeyPair.ofPublicBytes p.identityKey
  let oneTimeKeys ← p.oneTimeKeys.mapM OneTimeKey.ofPublished
  return ⟨p.device, identity, oneTimeKeys, (oneTimeKeys.map (·.idAfter)).foldl max 0⟩

/-- A randomly chosen one-time key. Nothing is drawn if there is none. -/
def drawOneTimeKey (b : Bundle) (env : Environment) : Option KeyPair × Environment :=
  if b.oneTimeKeys.isEmpty then (none, env)
  else
    let (i, env) := env.drawIndex b.oneTimeKeys.length
    (b.oneTimeKeys[i]?.map (·.pair), env)

end Bundle

end EndToEnd

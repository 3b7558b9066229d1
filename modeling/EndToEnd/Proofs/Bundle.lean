import EndToEnd.Bundle
import EndToEnd.Proofs.Session.Opening
import Mathlib.Data.List.Basic

/-!
# One-time keys

A published bundle names the keys of its owner's, in their order. A one-time key that is used up
leaves the bundle, and fresh ones come behind those that are left, so the bundle has changed; if no
fresh key is the one used up, the bundle does not hold it any more.
-/

namespace EndToEnd

namespace Bundle

variable {S : Suite} {b stored : Bundle} {key : Key} {pair : KeyPair} {target : Nat}
  {env : Environment}

/-- The key pairs of a bundle. -/
def pairs (b : Bundle) : List KeyPair := b.identity :: b.oneTimeKeys.map (·.pair)

/-! ## What peers know -/

/-- What a peer knows of a bundle: its identity key, and one-time keys that it holds. -/
structure Offers (own stored : Bundle) : Prop where
  identity : stored.identity.publicKey = own.identity.publicKey
  oneTime : ∀ k ∈ stored.oneTimeKeys, ∃ k' ∈ own.oneTimeKeys, k'.pair.publicKey = k.pair.publicKey

/-- Keys that are published are read back without their secret halves. -/
theorem mapM_ofPublished (ks : List OneTimeKey) :
    (ks.map (·.publish)).mapM OneTimeKey.ofPublished = .ok (ks.map (·.toPublic)) := by
  induction ks with
  | nil => rfl
  | cons k ks ih =>
    have hkey : OneTimeKey.ofPublished k.publish = .ok k.toPublic := by
      simp only [OneTimeKey.ofPublished, OneTimeKey.publish, KeyPair.ofPublicBytes,
        Key.parse_bytes]
      rfl
    rw [List.map_cons, List.mapM_cons, hkey, ih]
    rfl

/-- A published bundle is read by a peer as it is without private halves, and with a count of its
own. -/
theorem ofPublished_publish (b : Bundle) :
    ofPublished b.publish =
      .ok { b.toPublic with nextId := (b.oneTimeKeys.map (·.idAfter)).foldl max 0 } := by
  have hafter : (b.oneTimeKeys.map (·.toPublic)).map (·.idAfter) =
      b.oneTimeKeys.map (·.idAfter) := by
    rw [List.map_map]
    rfl
  simp only [ofPublished, publish, KeyPair.ofPublicBytes, Key.parse_bytes, mapM_ofPublished,
    ← hafter]
  rfl

/-- A published bundle offers what its owner holds. -/
theorem exists_ofPublished (b : Bundle) :
    ∃ stored, ofPublished b.publish = .ok stored ∧ stored.device = b.device ∧ b.Offers stored := by
  refine ⟨_, ofPublished_publish b, rfl, rfl, fun k hk => ?_⟩
  obtain ⟨k', hk', rfl⟩ := List.mem_map.mp hk
  exact ⟨k', hk', rfl⟩

/-- What a peer stores of the published bundle is what the bundle offers. -/
theorem offers_of_ofPublished (h : ofPublished b.publish = .ok stored) : b.Offers stored := by
  obtain ⟨read, hread, -, hoffers⟩ := exists_ofPublished b
  obtain rfl := Except.ok.inj (h.symm.trans hread)
  exact hoffers

/-! ## Looking keys up -/

/-- A key is named by the bytes of its public half. -/
theorem isNamed_bytes {k : OneTimeKey} : k.isNamed key.bytes = true ↔ k.pair.publicKey = key := by
  rw [OneTimeKey.isNamed, beq_iff_eq]
  exact ⟨Octets.ext, fun h => h ▸ rfl⟩

/-- The key that is found has the name that was looked for, and the bundle holds it. -/
theorem find?_eq_some (h : b.find? key.bytes = some pair) :
    pair.publicKey = key ∧ pair ∈ b.oneTimeKeys.map (·.pair) := by
  obtain ⟨k, hk, rfl⟩ := Option.map_eq_some_iff.mp h
  exact ⟨isNamed_bytes.mp (List.find?_some hk), List.mem_map_of_mem (List.mem_of_find?_eq_some hk)⟩

/-- A key is found if and only if one of that name is held. -/
theorem find?_isSome {name : Bytes} :
    (b.find? name).isSome ↔ ∃ k ∈ b.oneTimeKeys, k.isNamed name = true := by
  rw [find?, Option.isSome_map, List.find?_isSome]

/-! ## Using keys up -/

/-- Fresh one-time keys come behind those that are there. -/
theorem addKeys_eq (S : Suite) (count : Nat) (b : Bundle) (env : Environment) :
    ∃ fresh, (addKeys S count b env).1.oneTimeKeys = b.oneTimeKeys ++ fresh := by
  induction count generalizing b env with
  | zero => exact ⟨[], (List.append_nil _).symm⟩
  | succ count ih =>
    obtain ⟨fresh, hkeys⟩ := ih { b with
      oneTimeKeys := b.oneTimeKeys ++ [⟨b.nextId, (env.drawKeyPair S).1⟩]
      nextId := b.nextId + 1 } (env.drawKeyPair S).2
    exact ⟨⟨b.nextId, (env.drawKeyPair S).1⟩ :: fresh, hkeys.trans (List.append_assoc _ _ _)⟩

/-- Drawing one-time keys takes no time, and changes neither whose bundle it is nor the identity
key. -/
theorem addKeys_frame (S : Suite) (count : Nat) (b : Bundle) (env : Environment) :
    (addKeys S count b env).1.device = b.device ∧
      (addKeys S count b env).1.identity = b.identity ∧
      (addKeys S count b env).2.clock = env.clock := by
  induction count generalizing b env with
  | zero => exact ⟨rfl, rfl, rfl⟩
  | succ count ih => exact ih _ _

/-- Drawing keys takes random bytes and no time. -/
theorem clock_replenish (S : Suite) (b : Bundle) (target : Nat) (env : Environment) :
    (b.replenish S target env).2.2.clock = env.clock :=
  (addKeys_frame S _ b env).2.2

/-- The identity key of a fresh bundle is ours. -/
theorem hasPrivate_generate (S : Suite) (count : Nat) (env : Environment) :
    (generate S count env).1.identity.hasPrivate = true :=
  congrArg KeyPair.hasPrivate (addKeys_frame S _ _ _).2.1

/-- Using a one-time key up changes neither whose bundle it is nor the identity key. -/
theorem replenish_erase_frame (S : Suite) (b : Bundle) (name : Bytes) (target : Nat)
    (env : Environment) :
    ((b.erase name).replenish S target env).2.1.device = b.device ∧
      ((b.erase name).replenish S target env).2.1.identity = b.identity := by
  obtain ⟨hdevice, hidentity, -⟩ :=
    addKeys_frame S ((b.erase name).missing target) (b.erase name) env
  exact ⟨hdevice, hidentity⟩

section Using

variable {name : Bytes} (hheld : (b.find? name).isSome)
include hheld

/-- Taking out a key that is held makes the bundle shorter by one. -/
theorem length_erase : (b.erase name).oneTimeKeys.length = b.oneTimeKeys.length - 1 := by
  obtain ⟨k, hk, hnamed⟩ := find?_isSome.mp hheld
  exact List.length_eraseP_of_mem hk hnamed

/-- The one-time keys after one is used up: the others, and fresh ones behind them. -/
theorem replenish_erase (S : Suite) (target : Nat) (env : Environment) :
    ∃ fresh, ((b.erase name).replenish S target env).2.1.oneTimeKeys =
        b.oneTimeKeys.eraseP (·.isNamed name) ++ fresh ∧
      ((b.erase name).replenish S target env).2.1.identity = b.identity ∧
      ((b.erase name).replenish S target env).2.1.oneTimeKeys.drop (b.oneTimeKeys.length - 1) =
        fresh := by
  obtain ⟨fresh, hkeys⟩ := addKeys_eq S ((b.erase name).missing target) (b.erase name) env
  refine ⟨fresh, hkeys, (replenish_erase_frame S b name target env).2, ?_⟩
  rw [replenish_snd, hkeys, ← length_erase hheld]
  exact List.drop_left

/-- A bundle that has used up a key is another one. -/
theorem replenish_erase_ne (S : Suite) (target : Nat) (env : Environment) :
    ((b.erase name).replenish S target env).2.1 ≠ b := by
  intro heq
  obtain ⟨k, hk, -⟩ := find?_isSome.mp hheld
  have hpos : 0 < b.oneTimeKeys.length := List.length_pos_of_mem hk
  have herased := length_erase hheld
  have hlength := length_replenish S (b.erase name) target env
  rw [heq, herased] at hlength
  have hone : (b.erase name).missing target = 1 := by
    rw [missing, herased]
    omega
  rw [replenish_snd, hone] at heq
  have hnext : b.nextId + 1 = b.nextId := congrArg nextId heq
  have hnat := congrArg UInt32.toNat hnext
  rw [UInt32.toNat_add, UInt32.toNat_one] at hnat
  have hlt := b.nextId.toNat_lt
  omega

end Using

/-- A key that was held once is not held after it is used up. -/
theorem find?_replenish_erase {fresh : List OneTimeKey}
    (hkeys : stored.oneTimeKeys = b.oneTimeKeys.eraseP (·.isNamed key.bytes) ++ fresh)
    (hdistinct : ((b.oneTimeKeys ++ fresh).map (·.pair.publicKey)).Nodup)
    (hheld : (b.find? key.bytes).isSome) : stored.find? key.bytes = none := by
  rw [← Option.not_isSome_iff_eq_none, find?_isSome]
  rintro ⟨k, hk, hnamed⟩
  obtain ⟨own, hown, hownNamed⟩ := find?_isSome.mp hheld
  have hsame {k k' : OneTimeKey} (h : k.isNamed key.bytes = true)
      (h' : k'.isNamed key.bytes = true) :
      k.pair.publicKey = k'.pair.publicKey :=
    (isNamed_bytes.mp h).trans (isNamed_bytes.mp h').symm
  rw [List.map_append, List.nodup_append] at hdistinct
  obtain ⟨hnodup, -, hdisjoint⟩ := hdistinct
  rw [hkeys] at hk
  rcases List.mem_append.mp hk with hk | hk
  · obtain ⟨first, before, behind, hbefore, hfirst, hlist, herased⟩ :=
      List.exists_of_eraseP hown hownNamed
    rw [herased] at hk
    rw [hlist, List.map_append, List.map_cons] at hnodup
    rcases List.mem_append.mp hk with hk | hk
    · exact hbefore k hk hnamed
    · have hnotMem := (List.nodup_cons.mp (List.nodup_append.mp hnodup).2.1).1
      exact hnotMem (List.mem_map.mpr ⟨k, hk, hsame hnamed hfirst⟩)
  · exact hdisjoint _ (List.mem_map_of_mem hown) _ (List.mem_map_of_mem hk)
      (hsame hownNamed hnamed)

/-! ## Numbers -/

/-- The one-time keys of a bundle stand in the order of their numbers, of which `count` were given. -/
structure Numbered (b : Bundle) (count : Nat) : Prop where
  next : b.nextId.toNat = count
  ascending : (b.oneTimeKeys.map (·.id.toNat)).Pairwise (· < ·)
  given : ∀ k ∈ b.oneTimeKeys, k.id.toNat < count

/-- Fresh one-time keys get the next numbers, as long as there are any. -/
theorem addKeys_numbers (S : Suite) (count : Nat) (b : Bundle) (env : Environment)
    (hfew : b.nextId.toNat + count < UInt32.size) :
    ∃ fresh, (addKeys S count b env).1.oneTimeKeys = b.oneTimeKeys ++ fresh ∧
      (addKeys S count b env).1.nextId.toNat = b.nextId.toNat + count ∧
      fresh.map (·.id.toNat) = List.range' b.nextId.toNat count := by
  induction count generalizing b env with
  | zero => exact ⟨[], (List.append_nil _).symm, rfl, rfl⟩
  | succ count ih =>
    have hnext : (b.nextId + 1).toNat = b.nextId.toNat + 1 := by
      rw [UInt32.toNat_add, UInt32.toNat_one]
      refine Nat.mod_eq_of_lt (Nat.lt_of_le_of_lt ?_ hfew)
      exact Nat.add_le_add_left (Nat.succ_le_succ (Nat.zero_le count)) _
    obtain ⟨fresh, hkeys, hlast, hids⟩ := ih { b with
      oneTimeKeys := b.oneTimeKeys ++ [⟨b.nextId, (env.drawKeyPair S).1⟩]
      nextId := b.nextId + 1 } (env.drawKeyPair S).2 (by simp only [hnext]; omega)
    simp only [hnext] at hlast hids
    refine ⟨⟨b.nextId, (env.drawKeyPair S).1⟩ :: fresh, ?_, ?_, ?_⟩
    · exact hkeys.trans (List.append_assoc _ _ _)
    · exact hlast.trans (by omega)
    · rw [List.map_cons, hids]
      rfl

/-- A bundle that gets fresh one-time keys gets them behind the others, under new numbers. -/
theorem Numbered.addKeys {count more : Nat} (h : b.Numbered count) (S : Suite) (env : Environment)
    (hfew : count + more < UInt32.size) :
    ∃ fresh, (addKeys S more b env).1.oneTimeKeys = b.oneTimeKeys ++ fresh ∧
      fresh.length = more ∧ (fresh.map (·.id.toNat)).Nodup ∧ (∀ k ∈ fresh, count ≤ k.id.toNat) ∧
      (addKeys S more b env).1.Numbered (count + more) := by
  obtain ⟨fresh, hkeys, hnext, hids⟩ := addKeys_numbers S more b env (h.next.symm ▸ hfew)
  rw [h.next] at hnext hids
  have hbounds {k : OneTimeKey} (hk : k ∈ fresh) :
      count ≤ k.id.toNat ∧ k.id.toNat < count + more := by
    have hmem : k.id.toNat ∈ List.range' count more := hids ▸ List.mem_map_of_mem hk
    exact List.mem_range'_1.mp hmem
  have hlength : fresh.length = more := by
    simpa using congrArg List.length hids
  refine ⟨fresh, hkeys, hlength, hids ▸ List.nodup_range', fun k hk => (hbounds hk).1, hnext, ?_,
    fun k hk => ?_⟩
  · rw [hkeys, List.map_append, List.pairwise_append]
    refine ⟨h.ascending, hids ▸ List.pairwise_lt_range', fun i hi j hj => ?_⟩
    obtain ⟨k, hk, rfl⟩ := List.mem_map.mp hi
    obtain ⟨k', hk', rfl⟩ := List.mem_map.mp hj
    exact Nat.lt_of_lt_of_le (h.given k hk) (hbounds hk').1
  · rw [hkeys] at hk
    rcases List.mem_append.mp hk with hk | hk
    · exact Nat.lt_add_right more (h.given k hk)
    · exact (hbounds hk).2

/-- Removing a one-time key gives no number back. -/
theorem Numbered.erase {count : Nat} (h : b.Numbered count) (name : Bytes) :
    (b.erase name).Numbered count :=
  ⟨h.next, h.ascending.sublist (List.eraseP_sublist.map _),
    fun k hk => h.given k (List.eraseP_subset hk)⟩

end Bundle

end EndToEnd

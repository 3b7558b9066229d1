import EndToEnd.Proofs.Bundle.Numbering
import EndToEnd.Proofs.Store.Form

/-!
# Bundles of our own

A bundle of our own is generated, one-time keys are taken out of it and fresh ones put in, and in
between it is stored and read back. As long as fewer one-time keys were generated for it than there
are numbers, they stand in the order of their numbers, all in front of the next one, and a number
that has gone is gone for good. Every key has the private half that its public half is made of.

Storing makes no difference, so the numbers are those of the changes alone; and the numbers that a
generated bundle gives out are a single row from zero on.

Main statements:

- `given_generate`: the numbers that are given out;
- `numbered_run`, `lasting_generate`, `Ours.run`: what any changes keep;
- `use_eq`: storing a bundle in between makes no difference;
- `generated_use`: bundles of our own, whatever was done to them.
-/

namespace EndToEnd.Bundle

variable {S : Suite} {b : Bundle} {env : Environment} {count : Nat} {changes : List Change}

/-! ## Numbers from zero on -/

/-- As long as no id comes round again, the ids from 0 on are the first numbers. -/
theorem toNat_numbersFrom_zero (h : count ≤ UInt32.size) :
    (numbersFrom 0 count).map (·.toNat) = List.range count := by
  rw [numbersFrom_eq_map, List.map_map]
  refine (List.map_congr_left fun i hi => ?_).trans (List.map_id _)
  have hlt := List.mem_range.mp hi
  show ((0 : UInt32) + .ofNat i).toNat = i
  rw [Word.toNat_add_ofNat, UInt32.toNat_zero, Nat.zero_add]
  exact Nat.mod_eq_of_lt (Nat.lt_of_lt_of_le hlt h)

/-- A fresh bundle has the first numbers. -/
theorem ids_generate (S : Suite) (count : Nat) (env : Environment) :
    (generate S count env).1.ids = numbersFrom 0 count ∧
      (generate S count env).1.nextId = .ofNat count := by
  obtain ⟨hids, hnext⟩ := addKeys_ids S count
    ⟨.ofNat env.drawNat128.1, (env.drawNat128.2.drawKeyPair S).1, [], 0⟩
    (env.drawNat128.2.drawKeyPair S).2
  exact ⟨hids, hnext.trans (UInt32.zero_add _)⟩

/-- What a generated bundle gives out is one row of numbers. -/
theorem given_generate (S : Suite) (count : Nat) (env : Environment) (changes : List Change) :
    (generate S count env).1.given S changes =
      numbersFrom 0 (count + drawnIn S changes (generate S count env).1) := by
  obtain ⟨hids, hnext⟩ := ids_generate S count env
  rw [given, hids, hnext, numbersFrom_add, UInt32.zero_add]

/-- As long as there are numbers left, the keys stand in their order. -/
theorem numbered_run (S : Suite) (count : Nat) (env : Environment) (changes : List Change)
    (hfew : count + drawnIn S changes (generate S count env).1 < UInt32.size) :
    ((generate S count env).1.run S changes).Numbered
      (count + drawnIn S changes (generate S count env).1) := by
  obtain ⟨hids, hnext⟩ := run_ids S (generate S count env).1 changes
  rw [given_generate] at hids
  rw [(ids_generate S count env).2, ← UInt32.ofNat_add] at hnext
  generalize (generate S count env).1.run S changes = b at *
  generalize count + drawnIn S changes (generate S count env).1 = all at *
  have hsome : (b.oneTimeKeys.map (·.id.toNat)).Sublist (List.range all) := by
    have hnumbers := hids.map (·.toNat)
    rw [toNat_numbersFrom_zero (Nat.le_of_lt hfew), ids, List.map_map] at hnumbers
    exact hnumbers
  refine ⟨?_, List.pairwise_lt_range.sublist hsome, fun k hk => ?_⟩
  · rw [hnext]
    exact Nat.mod_eq_of_lt hfew
  · have hid : k.id.toNat ∈ b.oneTimeKeys.map (·.id.toNat) := List.mem_map.mpr ⟨k, hk, rfl⟩
    exact List.mem_range.mp (hsome.mem hid)

/-- The numbers of a generated bundle last until all have been given out. -/
theorem lasting_generate (S : Suite) (count : Nat) (env : Environment) (changes : List Change) :
    Lasting S (generate S count env).1 changes ↔
      count + drawnIn S changes (generate S count env).1 ≤ UInt32.size := by
  rw [lasting_iff_nodup, given_generate, nodup_numbersFrom]

/-! ## Private halves -/

/-- A key pair is ours: it has the private half that its public half is made of. -/
def IsOurs (S : Suite) (pair : KeyPair) : Prop := ∃ secret, pair = .ofPrivate S secret

/-- Every key of the bundle is ours. -/
def Ours (S : Suite) (b : Bundle) : Prop := ∀ pair ∈ b.pairs, IsOurs S pair

/-- A key pair that was drawn belongs together. -/
theorem isOurs_drawKeyPair (S : Suite) (env : Environment) : IsOurs S (env.drawKeyPair S).1 :=
  ⟨_, rfl⟩

/-- The keys that are added were drawn, so a bundle of ours stays one. -/
theorem Ours.addKeys (h : b.Ours S) (count : Nat) (env : Environment) :
    (addKeys S count b env).1.Ours S := by
  induction count generalizing b env with
  | zero => exact h
  | succ count ih =>
    apply ih
    intro pair hpair
    rw [pairs, List.map_append, ← List.cons_append, List.mem_append] at hpair
    rcases hpair with hpair | hpair
    · exact h pair hpair
    · obtain rfl := List.mem_singleton.mp hpair
      exact isOurs_drawKeyPair S env

/-- Taking out a key leaves the others ours. -/
theorem Ours.erase (h : b.Ours S) (name : Bytes) : (b.erase name).Ours S := by
  intro pair hpair
  have hleft : (b.oneTimeKeys.eraseP (·.isNamed name)).Sublist b.oneTimeKeys := List.eraseP_sublist
  exact h pair (((hleft.map _).cons_cons _).mem hpair)

/-- A bundle of ours stays one over a change. -/
theorem Ours.after (h : b.Ours S) (change : Change) : (b.after S change).Ours S := by
  cases change with
  | erase publicKey => exact h.erase publicKey
  | replenish target env => exact h.addKeys _ env

theorem ours_generate (S : Suite) (count : Nat) (env : Environment) :
    (generate S count env).1.Ours S := by
  refine Ours.addKeys ?_ _ _
  intro pair hpair
  obtain rfl := List.mem_singleton.mp hpair
  exact isOurs_drawKeyPair S _

/-- A bundle of ours stays one over any changes. -/
theorem Ours.run (h : b.Ours S) (changes : List Change) : (b.run S changes).Ours S := by
  induction changes generalizing b with
  | nil => exact h
  | cons change changes ih => exact ih (h.after change)

/-! ## Storing in between -/

/-- What is done with a bundle of our own: it is changed, or it is stored and read back. -/
inductive Use
  | change (change : Change)
  | reload

/-- The bundle after it; none, if the stored form cannot be read. -/
def useOnce (S : Suite) (b : Bundle) : Use → Option Bundle
  | .change change => some (b.after S change)
  | .reload => decode b.encode

/-- The bundle after several of them. -/
def use (S : Suite) (uses : List Use) (b : Bundle) : Option Bundle := uses.foldlM (useOnce S) b

/-- How many one-time keys are generated in them. -/
def generatedIn (S : Suite) : List Use → Bundle → Nat
  | [], _ => 0
  | .change change :: uses, b => b.drawn change + generatedIn S uses (b.after S change)
  | .reload :: uses, b => (decode b.encode).elim 0 (generatedIn S uses)

/-- The change that is made, if one is. -/
def Use.toChange : Use → Option Change
  | .change c => some c
  | .reload => none

/-- A change makes a bundle longer by no more than it draws. -/
theorem length_after_le (S : Suite) (b : Bundle) (change : Change) :
    (b.after S change).oneTimeKeys.length ≤ b.oneTimeKeys.length + b.drawn change := by
  cases change with
  | erase publicKey => exact List.eraseP_sublist.length_le
  | replenish target env => exact Nat.le_of_eq (length_addKeys S _ b env)

/-- A bundle whose keys can be counted is read back as it was stored. -/
theorem decode_encode (hfits : b.oneTimeKeys.length < UInt64.size) : decode b.encode = some b :=
  readStored_write (codec_readsBack hfits) (by decide)

/-- Storing a bundle in between makes no difference. -/
theorem use_eq (S : Suite) (uses : List Use) (b : Bundle)
    (hfits : b.oneTimeKeys.length + generatedIn S uses b < UInt64.size) :
    use S uses b = some (b.run S (uses.filterMap Use.toChange)) ∧
      generatedIn S uses b = drawnIn S (uses.filterMap Use.toChange) b := by
  induction uses generalizing b with
  | nil => exact ⟨rfl, rfl⟩
  | cons first uses ih =>
    cases first with
    | change change =>
      have hlength := length_after_le S b change
      rw [generatedIn] at hfits ⊢
      obtain ⟨huse, hgenerated⟩ := ih (b.after S change) (by omega)
      exact ⟨huse, congrArg (b.drawn change + ·) hgenerated⟩
    | reload =>
      have hback : decode b.encode = some b :=
        decode_encode (Nat.lt_of_le_of_lt (Nat.le_add_right _ _) hfits)
      have hgenerated : generatedIn S (.reload :: uses) b = generatedIn S uses b := by
        rw [generatedIn, hback, Option.elim_some]
      rw [hgenerated] at hfits ⊢
      obtain ⟨huse, hdrawn⟩ := ih b hfits
      refine ⟨?_, hdrawn⟩
      rw [use, List.foldlM_cons, useOnce, hback]
      exact huse

theorem use_append (S : Suite) (uses more : List Use) (b : Bundle) :
    use S (uses ++ more) b = (use S uses b).bind (use S more) := List.foldlM_append

/-- What is generated up to a point is generated in all. -/
theorem generatedIn_le_append (S : Suite) (uses more : List Use) (b : Bundle) :
    generatedIn S uses b ≤ generatedIn S (uses ++ more) b := by
  induction uses generalizing b with
  | nil => exact Nat.zero_le _
  | cons first uses ih =>
    cases first with
    | change change => exact Nat.add_le_add_left (ih _) _
    | reload =>
      rw [List.cons_append, generatedIn, generatedIn]
      cases decode b.encode with
      | none => exact Nat.le_refl 0
      | some back => exact ih back

/-- A bundle that was generated can be stored and read back all the way, as long as fewer one-time
keys are generated for it in all than there are numbers. Its keys stand in the order of their
numbers, in front of the next one, and are ours; a number that it had and has no more does not come
back. When it is filled up it keeps what it has in front of as many fresh keys as were missing,
which is the number that is returned, and then it has as many as asked for, or as it had. -/
theorem generated_use (S : Suite) (count : Nat) (env : Environment) (uses : List Use)
    (hfew : count + generatedIn S uses (generate S count env).1 < UInt32.size) :
    ∃ b, use S uses (generate S count env).1 = some b ∧
      b.Numbered (count + generatedIn S uses (generate S count env).1) ∧ b.Ours S ∧
      (∀ front middle behind, uses = front ++ middle ++ behind → ∃ early late,
        use S front (generate S count env).1 = some early ∧ use S middle early = some late ∧
        use S behind late = some b ∧ ∀ id ∈ early.ids, id ∉ late.ids → id ∉ b.ids) ∧
      ∀ target env, ∃ fresh,
        (b.replenish S target env).2.1.oneTimeKeys = b.oneTimeKeys ++ fresh ∧
        (b.replenish S target env).1 = fresh.length ∧ fresh.length = b.missing target ∧
        (b.replenish S target env).2.1.oneTimeKeys.length = max b.oneTimeKeys.length target := by
  have hids := (ids_generate S count env).1
  have hlength : (generate S count env).1.oneTimeKeys.length = count := by
    have hnumbers := congrArg List.length hids
    rwa [numbersFrom_eq_map, List.length_map, List.length_range, ids, List.length_map] at hnumbers
  have hours := ours_generate S count env
  have hnumbered := numbered_run S count env
  have hlasting := lasting_generate S count env
  generalize (generate S count env).1 = own at *
  -- up to any point, storing has made no difference
  have hto {front : List Use} (h : front <+: uses) :
      use S front own = some (own.run S (front.filterMap Use.toChange)) ∧
        generatedIn S front own = drawnIn S (front.filterMap Use.toChange) own := by
    obtain ⟨behind, rfl⟩ := h
    have hle := generatedIn_le_append S front behind own
    apply use_eq
    rw [hlength]
    simp only [UInt32.size, UInt64.size] at hfew ⊢
    omega
  obtain ⟨huse, hgenerated⟩ := hto (List.prefix_refl uses)
  rw [hgenerated] at hfew ⊢
  refine ⟨_, huse, hnumbered _ hfew, hours.run _, ?_, fun target env => ?_⟩
  · rintro front middle behind rfl
    obtain ⟨hfront, -⟩ :=
      hto ((List.prefix_append front middle).trans (List.prefix_append _ behind))
    obtain ⟨hmiddle, -⟩ := hto (List.prefix_append (front ++ middle) behind)
    have hlate := hmiddle
    rw [use_append, hfront, Option.bind_some] at hlate
    rw [use_append, hmiddle, Option.bind_some] at huse
    refine ⟨_, _, hfront, hlate, huse, ?_⟩
    simp only [List.filterMap_append] at hfew ⊢
    exact ((hlasting _).mpr (Nat.le_of_lt hfew)).gone _ _ _ (List.prefix_refl _)
  · obtain ⟨fresh, hkeys⟩ := addKeys_eq S (Bundle.missing _ target) _ env
    have hfilled := length_replenish S (own.run S (uses.filterMap Use.toChange)) target env
    have hfresh : fresh.length = (own.run S (uses.filterMap Use.toChange)).missing target := by
      rw [replenish_snd, hkeys, List.length_append] at hfilled
      rw [missing]
      omega
    exact ⟨fresh, hkeys, (replenish_fst S _ target env).trans hfresh.symm, hfresh, hfilled⟩

/-- The name of the first key of a fresh bundle. -/
def firstName : Bytes :=
  ((generate .plain 2 (.ofSeed 7)).1.oneTimeKeys.map (·.pair.publicKey.bytes)).headD []

/-- The first of two keys is taken out, the bundle is stored and read back, and filled up to three.
-/
def restocked : List Use :=
  [.change (.erase firstName), .reload, .change (.replenish 3 (.ofSeed 1)), .reload]

/-- Two keys, one of which is taken out and replaced: the next number goes on after the last. -/
theorem generated_use_restocked :
    2 + generatedIn .plain restocked (generate .plain 2 (.ofSeed 7)).1 < UInt32.size ∧
    ∃ b, use .plain restocked (generate .plain 2 (.ofSeed 7)).1 = some b ∧ b.ids = [1, 2, 3] ∧
      b.Numbered 4 ∧ b.Ours .plain := by
  have hrun : generatedIn .plain restocked (generate .plain 2 (.ofSeed 7)).1 = 2 ∧
      (use .plain restocked (generate .plain 2 (.ofSeed 7)).1).map (·.ids) = some [1, 2, 3] := by
    decide +kernel
  obtain ⟨hgenerated, hids⟩ := hrun
  have hfew : 2 + generatedIn .plain restocked (generate .plain 2 (.ofSeed 7)).1 < UInt32.size := by
    rw [hgenerated]
    decide
  obtain ⟨b, huse, hnumbered, hours, -⟩ := generated_use .plain 2 (.ofSeed 7) restocked hfew
  rw [huse, Option.map_some] at hids
  rw [hgenerated] at hnumbered
  exact ⟨hfew, b, huse, Option.some.inj hids, hnumbered, hours⟩

end EndToEnd.Bundle

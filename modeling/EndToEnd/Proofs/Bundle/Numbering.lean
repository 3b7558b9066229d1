import EndToEnd.Proofs.Bundle
import EndToEnd.Proofs.Primitive.Plain
import EndToEnd.Proofs.Words
import Mathlib.Data.List.Induction
import Mathlib.Data.List.Nodup

/-!
# The numbers of one-time keys

A fresh one-time key gets the next number, and behind the last number the count starts again from
zero. The count of a bundle that was published begins behind the largest number that is in it, or
with the last number again if that is in it. So numbers last only if there are enough of them: then
no two keys of the bundle ever have the same one, and one that has gone does not come back.

What has been given out is the numbers at the start and, behind them, as many as keys were drawn since.
Numbers last exactly if that list has no repetition.

Main statements:

- `after_ids`, `run_ids`: the numbers after one change, and after several;
- `lasting_iff_nodup`: when numbers last;
- `numbers_lasting_iff`: the same for a bundle that was published, by its numbers.
-/

namespace EndToEnd.Bundle

open Word (add_ofNat_succ toNat_add_ofNat)

variable {S : Suite} {b : Bundle} {env : Environment} {first id : UInt32} {count : Nat}

/-! ## Numbers in a row -/

/-- The numbers from one on. Behind the last one comes zero. -/
def numbersFrom (first : UInt32) : (count : Nat) → List UInt32
  | 0 => []
  | count + 1 => first :: numbersFrom (first + 1) count

/-- The ids in a row are the first one and the counts above it, in the arithmetic of their width. -/
theorem numbersFrom_eq_map (first : UInt32) (count : Nat) :
    numbersFrom first count = (List.range count).map fun i => first + .ofNat i := by
  induction count generalizing first with
  | zero => rfl
  | succ count ih =>
    rw [numbersFrom, ih, List.range_succ_eq_map, List.map_cons, List.map_map]
    congr 1
    · exact (UInt32.add_zero first).symm
    · refine List.map_congr_left fun i _ => ?_
      exact add_ofNat_succ first i

/-- An id is in the row if it is the first one and a count below the length. -/
theorem mem_numbersFrom : id ∈ numbersFrom first count ↔ ∃ i < count, id = first + .ofNat i := by
  rw [numbersFrom_eq_map, List.mem_map]
  constructor
  · rintro ⟨i, hi, rfl⟩
    exact ⟨i, List.mem_range.mp hi, rfl⟩
  · rintro ⟨i, hi, rfl⟩
    exact ⟨i, List.mem_range.mpr hi, rfl⟩

/-- A row of ids is continued at the number after its last. -/
theorem numbersFrom_add (first : UInt32) (count more : Nat) :
    numbersFrom first (count + more) =
      numbersFrom first count ++ numbersFrom (first + .ofNat count) more := by
  induction count generalizing first with
  | zero =>
    rw [Nat.zero_add]
    show _ = numbersFrom (first + 0) more
    rw [UInt32.add_zero]
  | succ count ih => rw [Nat.succ_add, numbersFrom, ih, add_ofNat_succ, numbersFrom, List.cons_append]

/-- A word is in a row from a smaller or larger one if its distance, once round, is. -/
theorem mem_numbersFrom_iff :
    id ∈ numbersFrom first count ↔ ∃ i < count, id.toNat = (first.toNat + i) % UInt32.size := by
  simp only [mem_numbersFrom, ← toNat_add_ofNat, UInt32.toNat_inj]

/-- There are as many different numbers in a row as there are words. -/
theorem nodup_numbersFrom : (numbersFrom first count).Nodup ↔ count ≤ UInt32.size := by
  rw [numbersFrom_eq_map, List.nodup_map_iff_inj_on List.nodup_range]
  simp only [List.mem_range, ← UInt32.toNat_inj, toNat_add_ofNat, UInt32.size]
  constructor
  · intro h
    by_contra hmany
    have hround := h 0 (by omega) 4294967296 (by omega) (by omega)
    omega
  · intro hfew i hi j hj heq
    have hlt := first.toNat_lt
    omega

/-! ## Changes -/

/-- The numbers of the one-time keys, in their order. -/
def ids (b : Bundle) : List UInt32 := b.oneTimeKeys.map (·.id)

/-- A change of a bundle: a one-time key is taken out, or fresh ones are put in. -/
inductive Change
  | erase (publicKey : Bytes)
  | replenish (target : Nat) (env : Environment)

/-- The bundle after a change. -/
def after (S : Suite) (b : Bundle) : Change → Bundle
  | .erase publicKey => b.erase publicKey
  | .replenish target env => (b.replenish S target env).2.1

/-- How many keys are drawn for a change. -/
def drawn (b : Bundle) : Change → Nat
  | .erase _ => 0
  | .replenish target _ => b.missing target

/-- The bundle after some changes. -/
def run (S : Suite) (b : Bundle) (changes : List Change) : Bundle := changes.foldl (after S) b

/-- How many keys are drawn for them. -/
def drawnIn (S : Suite) : List Change → Bundle → Nat
  | [], _ => 0
  | change :: changes, b => b.drawn change + drawnIn S changes (b.after S change)

/-- Adding keys appends the ids from the next one on, and moves the next one behind them. -/
theorem addKeys_ids (S : Suite) (count : Nat) (b : Bundle) (env : Environment) :
    (addKeys S count b env).1.ids = b.ids ++ numbersFrom b.nextId count ∧
      (addKeys S count b env).1.nextId = b.nextId + .ofNat count := by
  induction count generalizing b env with
  | zero => exact ⟨(List.append_nil _).symm, (UInt32.add_zero _).symm⟩
  | succ count ih =>
    obtain ⟨hids, hnext⟩ := ih { b with
      oneTimeKeys := b.oneTimeKeys ++ [⟨b.nextId, (env.drawKeyPair S).1⟩]
      nextId := b.nextId + 1 } (env.drawKeyPair S).2
    refine ⟨hids.trans ?_, hnext.trans (add_ofNat_succ _ _)⟩
    simp only [ids, List.map_append, List.map_cons, List.map_nil, List.append_assoc,
      List.singleton_append, numbersFrom]

/-- A change takes numbers out, or puts the next ones behind the others. -/
theorem after_ids (S : Suite) (b : Bundle) (change : Change) :
    ∃ left, (b.after S change).ids = left ++ numbersFrom b.nextId (b.drawn change) ∧
      left.Sublist b.ids ∧ (b.drawn change ≠ 0 → left = b.ids) ∧
      (b.after S change).nextId = b.nextId + .ofNat (b.drawn change) := by
  cases change with
  | erase publicKey =>
    refine ⟨(b.erase publicKey).ids, (List.append_nil _).symm, ?_, ?_, (UInt32.add_zero _).symm⟩
    · exact List.eraseP_sublist.map _
    · intro hdrawn
      exact absurd rfl hdrawn
  | replenish target env =>
    obtain ⟨hids, hnext⟩ := addKeys_ids S (b.missing target) b env
    exact ⟨b.ids, hids, .refl _, fun _ => rfl, hnext⟩

theorem run_append (S : Suite) (b : Bundle) (changes more : List Change) :
    b.run S (changes ++ more) = (b.run S changes).run S more := List.foldl_append

/-- The keys that changes in a row draw are counted part by part. -/
theorem drawnIn_append (S : Suite) (changes more : List Change) (b : Bundle) :
    drawnIn S (changes ++ more) b = drawnIn S changes b + drawnIn S more (b.run S changes) := by
  induction changes generalizing b with
  | nil => exact (Nat.zero_add _).symm
  | cons change changes ih =>
    rw [List.cons_append, drawnIn, ih, ← Nat.add_assoc]
    rfl

/-- The numbers that were given out: those at the start, and behind them the ones drawn since. -/
def given (S : Suite) (b : Bundle) (changes : List Change) : List UInt32 :=
  b.ids ++ numbersFrom b.nextId (drawnIn S changes b)

/-- Of the numbers that were given out, in their order, some are left, and the count goes on behind
them. -/
theorem run_ids (S : Suite) (b : Bundle) (changes : List Change) :
    (b.run S changes).ids.Sublist (b.given S changes) ∧
      (b.run S changes).nextId = b.nextId + .ofNat (drawnIn S changes b) := by
  induction changes generalizing b with
  | nil => exact ⟨List.sublist_append_left _ _, (UInt32.add_zero _).symm⟩
  | cons change changes ih =>
    obtain ⟨left, hids, hleft, -, hnext⟩ := after_ids S b change
    obtain ⟨hsublist, hlast⟩ := ih (b.after S change)
    refine ⟨hsublist.trans ?_, hlast.trans ?_⟩
    · rw [given, given, hids, hnext, drawnIn, numbersFrom_add, List.append_assoc]
      exact hleft.append_right _
    · rw [hnext, drawnIn, UInt32.ofNat_add, UInt32.add_assoc]

/-- What is given out by further changes is counted from the bundle that they begin with. -/
theorem given_append (S : Suite) (b : Bundle) (changes more : List Change) :
    b.given S (changes ++ more) = b.given S changes ++
      numbersFrom (b.run S changes).nextId (drawnIn S more (b.run S changes)) := by
  rw [given, given, drawnIn_append, numbersFrom_add, (run_ids S b changes).2, List.append_assoc]

/-! ## Numbers that last -/

/-- Numbers last: at no time do two keys have the same one, and one that has gone never comes
back. -/
structure Lasting (S : Suite) (b : Bundle) (changes : List Change) : Prop where
  distinct : ∀ front, front <+: changes → (b.run S front).ids.Nodup
  gone : ∀ front middle behind, front ++ middle ++ behind <+: changes →
    ∀ id ∈ (b.run S front).ids, id ∉ (b.run S (front ++ middle)).ids →
      id ∉ (b.run S (front ++ middle ++ behind)).ids

/-- What lasts over all changes lasts over the first of them. -/
theorem Lasting.of_prefix {front changes : List Change} (h : Lasting S b changes)
    (hfront : front <+: changes) : Lasting S b front where
  distinct earlier hearlier := h.distinct earlier (hearlier.trans hfront)
  gone earlier middle behind hlist := h.gone earlier middle behind (hlist.trans hfront)

/-- The ids that were given are only added to. -/
theorem given_mono (S : Suite) (b : Bundle) {front changes : List Change}
    (h : front <+: changes) : b.given S front <+: b.given S changes := by
  obtain ⟨behind, rfl⟩ := h
  rw [given_append]
  exact List.prefix_append _ _

/-- Every number that was given out was in the bundle at some time. -/
theorem exists_run_of_mem_given {changes : List Change} (h : id ∈ b.given S changes) :
    ∃ front, front <+: changes ∧ id ∈ (b.run S front).ids := by
  induction changes using List.reverseRecOn with
  | nil =>
    rw [given, drawnIn, numbersFrom, List.append_nil] at h
    exact ⟨[], List.prefix_refl [], h⟩
  | append_singleton changes change ih =>
    rw [given_append] at h
    rcases List.mem_append.mp h with h | h
    · obtain ⟨front, hfront, hid⟩ := ih h
      exact ⟨front, hfront.trans (List.prefix_append _ _), hid⟩
    · obtain ⟨left, hids, -⟩ := after_ids S (b.run S changes) change
      refine ⟨changes ++ [change], List.prefix_refl _, ?_⟩
      rw [run_append]
      show id ∈ ((b.run S changes).after S change).ids
      rw [hids]
      exact List.mem_append_right _ h

/-- Without a repetition among the numbers that were given out, they last. -/
theorem Lasting.of_nodup {changes : List Change} (h : (b.given S changes).Nodup) :
    Lasting S b changes where
  distinct front hfront :=
    ((h.sublist (given_mono S b hfront).sublist).sublist (run_ids S b front).1)
  gone front middle behind hlist id hid hgone hback := by
    have hgiven := h.sublist (given_mono S b hlist).sublist
    rw [given_append] at hgiven
    -- it was given out before it had gone, so it was not drawn again
    have hbefore : id ∈ b.given S (front ++ middle) :=
      (given_mono S b (List.prefix_append front middle)).subset ((run_ids S b front).1.subset hid)
    rw [run_append] at hback
    have hsome := (run_ids S (b.run S (front ++ middle)) behind).1.subset hback
    rcases List.mem_append.mp hsome with hstayed | hdrawn
    · exact hgone hstayed
    · exact List.disjoint_of_nodup_append hgiven hbefore hdrawn

/-- Numbers that last are given out once. -/
theorem Lasting.nodup {changes : List Change} (h : Lasting S b changes) :
    (b.given S changes).Nodup := by
  induction changes using List.reverseRecOn with
  | nil =>
    rw [given, drawnIn, numbersFrom, List.append_nil]
    exact h.distinct [] (List.prefix_refl [])
  | append_singleton changes change ih =>
    have hprefix : changes <+: changes ++ [change] := List.prefix_append _ _
    obtain ⟨left, hids, -, hleft, -⟩ := after_ids S (b.run S changes) change
    have hafter : (b.run S (changes ++ [change])).ids =
        left ++ numbersFrom (b.run S changes).nextId ((b.run S changes).drawn change) := by
      rw [run_append]
      exact hids
    have hdistinct := h.distinct (changes ++ [change]) (List.prefix_refl _)
    rw [hafter] at hdistinct
    rw [given_append]
    refine List.nodup_append'.mpr ⟨ih (h.of_prefix hprefix),
      (List.nodup_append'.mp hdistinct).2.1, ?_⟩
    intro id hid hdrawn
    have hsome : (b.run S changes).drawn change ≠ 0 := by
      intro hnone
      rw [drawnIn, hnone] at hdrawn
      exact nomatch hdrawn
    -- an id that is drawn again is still held, or it was held and has come back
    by_cases hhere : id ∈ (b.run S changes).ids
    · rw [← hleft hsome] at hhere
      exact List.disjoint_of_nodup_append hdistinct hhere hdrawn
    · -- it was in the bundle, has gone, and comes back
      obtain ⟨front, ⟨middle, rfl⟩, hfront⟩ := exists_run_of_mem_given hid
      apply h.gone front middle [change] (List.prefix_refl _) id hfront hhere
      rw [hafter]
      exact List.mem_append_right _ hdrawn

/-- Ids last if and only if none was given twice. -/
theorem lasting_iff_nodup {changes : List Change} :
    Lasting S b changes ↔ (b.given S changes).Nodup := ⟨Lasting.nodup, Lasting.of_nodup⟩

/-! ## Published bundles -/

/-- The largest of some words is one of them, and none of them is larger. -/
theorem foldl_max (words : List UInt32) (least : UInt32) :
    least ≤ words.foldl max least ∧ (∀ word ∈ words, word ≤ words.foldl max least) ∧
      (words.foldl max least = least ∨ words.foldl max least ∈ words) := by
  induction words generalizing least with
  | nil => exact ⟨UInt32.le_refl _, nofun, .inl rfl⟩
  | cons word words ih =>
    obtain ⟨hleast, hall, hone⟩ := ih (max least word)
    have hmax : max least word = if least ≤ word then word else least := rfl
    rw [List.foldl_cons]
    by_cases h : least ≤ word
    · rw [hmax, if_pos h] at hleast hall hone ⊢
      refine ⟨UInt32.le_trans h hleast, ?_, .inr ?_⟩
      · exact List.forall_mem_cons.mpr ⟨hleast, hall⟩
      · rcases hone with heq | hmem
        · rw [heq]
          exact List.mem_cons_self
        · exact List.mem_cons_of_mem _ hmem
    · have hless : word ≤ least := (UInt32.le_total least word).resolve_left h
      rw [hmax, if_neg h] at hleast hall hone ⊢
      refine ⟨hleast, ?_, hone.imp_right (List.mem_cons_of_mem _)⟩
      exact List.forall_mem_cons.mpr ⟨UInt32.le_trans hless hleast, hall⟩

/-- A published bundle is read under its numbers. -/
theorem mapM_ofPublished_ids {published : List Wire.PublishedKey} {keys : List OneTimeKey}
    (h : published.mapM OneTimeKey.ofPublished = .ok keys) :
    keys.map (·.id) = published.map (·.id) := by
  induction published generalizing keys with
  | nil =>
    obtain rfl := Except.ok.inj h
    rfl
  | cons first published ih =>
    rw [List.mapM_cons] at h
    obtain ⟨key, hkey, h⟩ := bind_eq_ok.mp h
    obtain ⟨keys', hkeys', h⟩ := bind_eq_ok.mp h
    obtain rfl := Except.ok.inj h
    obtain ⟨pair, -, rfl⟩ := map_eq_ok.mp hkey
    rw [List.map_cons, List.map_cons, ih hkeys']

/-- Behind a number that is not the last one comes a larger one. -/
theorem toNat_idAfter {k : OneTimeKey} (h : k.id ≠ 0xffffffff) :
    k.idAfter.toNat = k.id.toNat + 1 := by
  rw [OneTimeKey.idAfter, if_neg h]
  exact Word.toNat_succ h

/-- The next number of a bundle that was published: zero if it has no keys, the last number if that
is in it, and else the number behind the largest. -/
inductive Begins (b : Bundle) : Prop
  | empty (none : b.ids = []) (next : b.nextId = 0)
  | last (last : 0xffffffff ∈ b.ids) (next : b.nextId = 0xffffffff)
  | behind (greatest : UInt32) (held : greatest ∈ b.ids) (notLast : 0xffffffff ∉ b.ids)
      (largest : ∀ id ∈ b.ids, id.toNat ≤ greatest.toNat)
      (next : b.nextId.toNat = greatest.toNat + 1)

/-- A bundle that was published has the ids of its document, and counts on behind the largest. -/
theorem ofPublished_begins {p : Wire.PublishedBundle} (h : ofPublished p = .ok b) :
    b.ids = p.oneTimeKeys.map (·.id) ∧ b.Begins := by
  obtain ⟨identity, -, h⟩ := bind_eq_ok.mp h
  obtain ⟨keys, hkeys, h⟩ := bind_eq_ok.mp h
  obtain rfl := Except.ok.inj h
  refine ⟨mapM_ofPublished_ids hkeys, ?_⟩
  obtain ⟨-, hall, hone⟩ := foldl_max (keys.map (·.idAfter)) 0
  generalize (keys.map OneTimeKey.idAfter).foldl max 0 = next at hall hone ⊢
  have hbound {k : OneTimeKey} (hk : k ∈ keys) : k.idAfter.toNat ≤ next.toNat :=
    hall k.idAfter (List.mem_map_of_mem hk)
  -- the number behind the last one is the last one itself, so it is a case of its own
  by_cases hlast : 0xffffffff ∈ keys.map (·.id)
  · refine .last hlast (UInt32.toNat_inj.mp ?_)
    obtain ⟨k, hk, hid⟩ := List.mem_map.mp hlast
    have hafter : k.idAfter = 0xffffffff := by rw [OneTimeKey.idAfter, if_pos hid, hid]
    have hle := hbound hk
    rw [hafter] at hle
    exact Nat.le_antisymm (Nat.le_of_lt_succ next.toNat_lt) hle
  · have hnext {k : OneTimeKey} (hk : k ∈ keys) : k.idAfter.toNat = k.id.toNat + 1 := by
      apply toNat_idAfter
      intro hid
      exact hlast (List.mem_map.mpr ⟨k, hk, hid⟩)
    rcases hone with hzero | hmem
    · refine .empty ?_ hzero
      apply List.eq_nil_iff_forall_not_mem.mpr
      intro id hid
      obtain ⟨k, hk, -⟩ := List.mem_map.mp hid
      have hle := hbound hk
      rw [hnext hk, hzero] at hle
      exact Nat.not_succ_le_zero _ hle
    · obtain ⟨k, hk, hgreatest⟩ := List.mem_map.mp hmem
      refine .behind k.id (List.mem_map_of_mem hk) hlast ?_ ?_
      · intro id hid
        obtain ⟨k', hk', rfl⟩ := List.mem_map.mp hid
        have hle := hbound hk'
        rw [← hgreatest, hnext hk', hnext hk] at hle
        exact Nat.le_of_succ_le_succ hle
      · rw [← hnext hk, hgreatest]

/-! ## How many numbers there are -/

/-- As many numbers can be drawn without a repetition: none at all, or, if the last number is not in
the bundle, as many as fit between the largest and, once round, the smallest. -/
def Room (b : Bundle) (count : Nat) : Prop :=
  count = 0 ∨ 0xffffffff ∉ b.ids ∧ count ≤ UInt32.size ∧
    ∀ i ∈ b.ids, ∀ j ∈ b.ids, i.toNat + count < j.toNat + UInt32.size

/-- The row behind the largest number meets a number of the bundle if it goes round that far. -/
theorem disjoint_numbersFrom_iff {greatest : UInt32}
    (hlargest : ∀ id ∈ b.ids, id.toNat ≤ greatest.toNat)
    (hnext : b.nextId.toNat = greatest.toNat + 1) :
    b.ids.Disjoint (numbersFrom b.nextId count) ↔
      ∀ id ∈ b.ids, greatest.toNat + count < id.toNat + UInt32.size := by
  constructor
  · intro hdisjoint id hid
    by_contra hround
    have hle := hlargest id hid
    have hlt := id.toNat_lt
    have hlt' := greatest.toNat_lt
    simp only [UInt32.size] at hround
    apply hdisjoint hid
    refine mem_numbersFrom_iff.mpr ⟨id.toNat + 4294967296 - (greatest.toNat + 1), by omega, ?_⟩
    simp only [hnext, UInt32.size]
    omega
  · intro hroom id hid hdrawn
    obtain ⟨i, hi, heq⟩ := mem_numbersFrom_iff.mp hdrawn
    have hle := hlargest id hid
    have hfits := hroom id hid
    simp only [hnext, UInt32.size] at heq hfits
    omega

/-- How many numbers a bundle that was published can draw. -/
theorem Begins.nodup_iff_room (h : b.Begins) (hdistinct : b.ids.Nodup) :
    (b.ids ++ numbersFrom b.nextId count).Nodup ↔ b.Room count := by
  cases count with
  | zero =>
    rw [numbersFrom, List.append_nil]
    exact ⟨fun _ => .inl rfl, fun _ => hdistinct⟩
  | succ count =>
    rw [Room, or_iff_right (Nat.succ_ne_zero count), List.nodup_append', and_iff_right hdistinct,
      nodup_numbersFrom]
    cases h with
    | empty hnone hnext =>
      rw [hnone]
      refine ⟨fun h => ⟨List.not_mem_nil, h.1, nofun⟩, fun h => ⟨h.2.1, List.disjoint_nil_left _⟩⟩
    | last hlast hnext =>
      refine ⟨fun h => ?_, fun h => absurd hlast h.1⟩
      refine absurd (h.2 hlast ?_) id
      rw [hnext]
      exact List.mem_cons_self
    | behind greatest hheld hnotLast hlargest hnext =>
      rw [disjoint_numbersFrom_iff hlargest hnext, and_iff_right hnotLast]
      refine and_congr_right fun _ => ⟨fun h i hi j hj => ?_, fun h => h greatest hheld⟩
      have hfits := h j hj
      have hle := hlargest i hi
      omega

/-- The numbers of a bundle that was published, with distinct ones, last through any changes exactly
as long as there is room for those that are drawn. -/
theorem numbers_lasting_iff (S : Suite) {p : Wire.PublishedBundle} (h : ofPublished p = .ok b)
    (hdistinct : (p.oneTimeKeys.map (·.id)).Nodup) (changes : List Change) :
    b.ids = p.oneTimeKeys.map (·.id) ∧
      (Lasting S b changes ↔ b.Room (drawnIn S changes b)) := by
  obtain ⟨hids, hbegins⟩ := ofPublished_begins h
  rw [← hids] at hdistinct
  exact ⟨hids, lasting_iff_nodup.trans (hbegins.nodup_iff_room hdistinct)⟩

/-- A document with some numbers, each for a key of its own. -/
def published (numbers : List UInt32) : Wire.PublishedBundle :=
  ⟨.ofNat 1, List.replicate 32 0, numbers.map fun id => ⟨id, Bytes.littleEndian 32 id.toNat⟩⟩

/-- Two keys are filled up to three, one is taken out, and they are filled up again. -/
theorem numbers_lasting_iff_few :
    ∃ b, ofPublished (published [7, 3]) = .ok b ∧
      let changes := [.replenish 3 (.ofSeed 0), .erase (Bytes.littleEndian 32 7),
        .replenish 3 (.ofSeed 1)]
      drawnIn .plain changes b = 2 ∧ (b.run .plain changes).ids = [3, 8, 9] ∧
        Lasting .plain b changes := by
  have hread : ∃ b, ofPublished (published [7, 3]) = .ok b ∧
      let changes := [.replenish 3 (.ofSeed 0), .erase (Bytes.littleEndian 32 7),
        .replenish 3 (.ofSeed 1)]
      drawnIn .plain changes b = 2 ∧ (b.run .plain changes).ids = [3, 8, 9] := by
    decide +kernel
  obtain ⟨b, hread, hdrawn, hids⟩ := hread
  obtain ⟨hnumbers, hlasting⟩ := numbers_lasting_iff .plain hread (by decide)
    [.replenish 3 (.ofSeed 0), .erase (Bytes.littleEndian 32 7), .replenish 3 (.ofSeed 1)]
  refine ⟨b, hread, hdrawn, hids, hlasting.mpr ?_⟩
  rw [Room, hnumbers, hdrawn]
  have hbetween (id : UInt32) (hid : id ∈ [7, 3]) : 3 ≤ id.toNat ∧ id.toNat ≤ 7 := by
    rcases List.mem_pair.mp hid with rfl | rfl <;> decide
  refine .inr ⟨by decide, by decide, ?_⟩
  intro i hi j hj
  have hhigh := (hbetween i hi).2
  have hlow := (hbetween j hj).1
  simp only [UInt32.size]
  omega

/-- A bundle that was published with the last number gives that out again, beside the key that has
it or after it has gone. A bundle with a number in front of the last and with zero goes round to
zero. In all of them no more than six keys have been numbered. -/
theorem numbers_repeated :
    (∃ b, ofPublished (published [0xffffffff]) = .ok b ∧ b.ids = [0xffffffff] ∧
      let filled := [.replenish 2 (.ofSeed 0)]
      let replaced := [.erase (Bytes.littleEndian 32 4294967295), .replenish 1 (.ofSeed 0)]
      (drawnIn .standard filled b = 1 ∧
        (b.run .standard filled).ids = [0xffffffff, 0xffffffff] ∧
        ¬ Lasting .standard b filled) ∧
      drawnIn .standard replaced b = 1 ∧ (b.run .standard (replaced.take 1)).ids = [] ∧
        (b.run .standard replaced).ids = [0xffffffff] ∧ ¬ Lasting .standard b replaced) ∧
    ∃ b, ofPublished (published [0, 0xfffffffe]) = .ok b ∧ b.ids = [0, 0xfffffffe] ∧
      let filled := [.replenish 4 (.ofSeed 0)]
      drawnIn .standard filled b = 2 ∧
        (b.run .standard filled).ids = [0, 0xfffffffe, 0xffffffff, 0] ∧
        ¬ Lasting .standard b filled := by
  have hlast : ∃ b, ofPublished (published [0xffffffff]) = .ok b ∧ b.ids = [0xffffffff] ∧
      let filled := [.replenish 2 (.ofSeed 0)]
      let replaced := [.erase (Bytes.littleEndian 32 4294967295), .replenish 1 (.ofSeed 0)]
      (drawnIn .standard filled b = 1 ∧
        (b.run .standard filled).ids = [0xffffffff, 0xffffffff]) ∧
      drawnIn .standard replaced b = 1 ∧ (b.run .standard (replaced.take 1)).ids = [] ∧
        (b.run .standard replaced).ids = [0xffffffff] := by
    decide +kernel
  have hround : ∃ b, ofPublished (published [0, 0xfffffffe]) = .ok b ∧ b.ids = [0, 0xfffffffe] ∧
      let filled := [.replenish 4 (.ofSeed 0)]
      drawnIn .standard filled b = 2 ∧
        (b.run .standard filled).ids = [0, 0xfffffffe, 0xffffffff, 0] := by
    decide +kernel
  obtain ⟨b, hread, hids, ⟨hone, hdoubled⟩, hone', hgone, hback⟩ := hlast
  obtain ⟨b', hread', hids', htwo, hdoubled'⟩ := hround
  refine ⟨⟨b, hread, hids, ⟨hone, hdoubled, ?_⟩, hone', hgone, hback, ?_⟩,
    b', hread', hids', htwo, hdoubled', ?_⟩
  · intro h
    have hdistinct := h.distinct _ (List.prefix_refl _)
    rw [hdoubled] at hdistinct
    exact absurd hdistinct (by decide)
  · intro h
    have hnever := h.gone [] [.erase (Bytes.littleEndian 32 4294967295)] [.replenish 1 (.ofSeed 0)]
      (List.prefix_refl _) 0xffffffff
    have hheld : 0xffffffff ∈ b.ids := hids ▸ List.mem_cons_self
    exact hnever hheld (hgone ▸ List.not_mem_nil) (hback ▸ List.mem_cons_self)
  · intro h
    have hdistinct := h.distinct _ (List.prefix_refl _)
    rw [hdoubled'] at hdistinct
    exact absurd hdistinct (by decide)

end EndToEnd.Bundle

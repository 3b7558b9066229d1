import EndToEnd.Proofs.Bundle.Generated

/-!
# The published copy of a bundle

A peer reads the document of a bundle as the bundle without its private halves: the device, the
identity key and the one-time keys under their numbers, in their order. The count is not published.
The peer's begins behind the largest number in the document, so it is the owner's if the newest
one-time key has not gone.

Main statements:

- `publish_eq_iff`: which bundles are published alike;
- `ofPublished_publish_eq`: what is read of a document;
- `Numbered.begins_iff`: when the count can be told from the keys;
- `generated_publish`: the documents of a bundle of our own, whatever keys were taken out and put
  in.
-/

namespace EndToEnd.Bundle

variable {S : Suite} {b b' : Bundle} {count : Nat}

/-! ## Reading a document -/

/-- Bundles that differ in nothing but private halves and the count are published alike, and no
others are. -/
theorem publish_eq_iff :
    b'.publish = b.publish ↔ { b'.toPublic with nextId := b.nextId } = b.toPublic := by
  constructor
  · intro h
    have hread := congrArg ofPublished h
    rw [ofPublished_publish, ofPublished_publish] at hread
    exact congrArg (fun read => { read with nextId := b.nextId }) (Except.ok.inj hread)
  · intro h
    rw [← publish_toPublic b, ← h, ← publish_toPublic b']
    rfl

/-! ## Telling the count from the keys -/

theorem Begins.of_eq (h : b.Begins) (hids : b'.ids = b.ids) (hnext : b'.nextId = b.nextId) :
    b'.Begins := by
  cases h with
  | empty none next => exact .empty (hids.trans none) (hnext.trans next)
  | last last next => exact .last (hids ▸ last) (hnext.trans next)
  | behind greatest held notLast largest next =>
    refine .behind greatest ?_ ?_ ?_ (hnext ▸ next) <;> rwa [hids]

/-- The numbers of a published bundle tell its count. -/
theorem Begins.nextId_eq (h : b.Begins) (h' : b'.Begins) (hids : b'.ids = b.ids) :
    b'.nextId = b.nextId := by
  cases h with
  | empty none next =>
    have hnobody {id : UInt32} : id ∉ b'.ids := by
      rw [hids, none]
      exact List.not_mem_nil
    cases h' with
    | empty _ next' => rw [next, next']
    | last last' => exact absurd last' hnobody
    | behind _ held' => exact absurd held' hnobody
  | last last next =>
    rw [← hids] at last
    cases h' with
    | empty none' => rw [none'] at last; exact nomatch last
    | last _ next' => rw [next, next']
    | behind _ _ notLast' => exact absurd last notLast'
  | behind greatest held notLast largest next =>
    rw [← hids] at held notLast largest
    cases h' with
    | empty none' => rw [none'] at held; exact nomatch held
    | last last' => exact absurd last' notLast
    | behind greatest' held' _ largest' next' =>
      have hle := largest greatest' held'
      have hge := largest' greatest held
      apply UInt32.toNat_inj.mp
      omega

/-- A peer reads the count of a bundle from its document exactly if the numbers tell it. -/
theorem ofPublished_publish_eq {read : Bundle} (h : ofPublished b.publish = .ok read) :
    { read with nextId := b.nextId } = b.toPublic ∧ (read = b.toPublic ↔ b.Begins) := by
  obtain ⟨hids, hbegins⟩ := ofPublished_begins h
  have hnumbers : read.ids = b.ids := by
    rw [hids, publish, List.map_map]
    rfl
  have hcopy : { read with nextId := b.nextId } = b.toPublic := by
    rw [ofPublished_publish] at h
    obtain rfl := Except.ok.inj h
    rfl
  refine ⟨hcopy, fun heq => ?_, fun hown => ?_⟩
  · exact hbegins.of_eq hnumbers.symm (congrArg nextId heq).symm
  · rw [← hcopy, ← hown.nextId_eq hbegins hnumbers]

/-- With their numbers in order, the keys tell the count exactly if the newest one is there. -/
theorem Numbered.begins_iff (h : b.Numbered count) :
    b.Begins ↔ count = 0 ∨ ∃ id ∈ b.ids, id.toNat + 1 = count := by
  have hgiven {id : UInt32} (hid : id ∈ b.ids) : id.toNat < count := by
    obtain ⟨k, hk, rfl⟩ := List.mem_map.mp hid
    exact h.given k hk
  have hcount : count < UInt32.size := h.next ▸ b.nextId.toNat_lt
  have hnotLast : 0xffffffff ∉ b.ids := fun hlast => by
    have hlt := hgiven hlast
    exact absurd hcount (Nat.not_lt.mpr hlt)
  constructor
  · intro hbegins
    cases hbegins with
    | empty _ next => exact .inl (h.next.symm.trans (congrArg UInt32.toNat next))
    | last last => exact absurd last hnotLast
    | behind greatest held _ _ next => exact .inr ⟨greatest, held, next.symm.trans h.next⟩
  · rintro (rfl | ⟨newest, hnewest, rfl⟩)
    · refine .empty ?_ (UInt32.toNat_inj.mp h.next)
      exact List.eq_nil_iff_forall_not_mem.mpr fun id hid => Nat.not_lt_zero _ (hgiven hid)
    · exact .behind newest hnewest hnotLast (fun id hid => Nat.le_of_lt_succ (hgiven hid)) h.next

/-! ## Documents of our own bundle -/

/-- The document of a bundle of our own, whatever keys were taken out and put in since it was
generated, is read as the bundle without its private halves, but for the count. That begins behind
the largest number in the document; as long as fewer one-time keys were generated than there are
numbers, it is the owner's exactly if the newest key has not gone. Bundles that differ in nothing
but private halves and the count have the same document, and no others have. -/
theorem generated_publish (S : Suite) (count : Nat) (env : Environment) (changes : List Change) :
    let own := (generate S count env).1.run S changes
    let generated := count + drawnIn S changes (generate S count env).1
    (∃ read, ofPublished own.publish = .ok read ∧
      { read with nextId := own.nextId } = own.toPublic ∧ read.Begins ∧
      (read = own.toPublic ↔ own.Begins) ∧
      (generated < UInt32.size →
        (read = own.toPublic ↔ generated = 0 ∨ ∃ id ∈ own.ids, id.toNat + 1 = generated))) ∧
    ∀ other : Bundle, other.publish = own.publish ↔
      { other.toPublic with nextId := own.nextId } = own.toPublic := by
  intro own generated
  have hread := ofPublished_publish own
  obtain ⟨hcopy, heq⟩ := ofPublished_publish_eq hread
  refine ⟨⟨_, hread, hcopy, (ofPublished_begins hread).2, heq, fun hfew => ?_⟩,
    fun other => publish_eq_iff⟩
  exact heq.trans (numbered_run S count env changes hfew).begins_iff

/-- The first of two keys is taken out, and a third one put in. -/
def renewed : List Change := [.erase firstName, .replenish 2 (.ofSeed 1)]

theorem generated_publish_renewed :
    2 + drawnIn .plain renewed (generate .plain 2 (.ofSeed 7)).1 < UInt32.size ∧
    let own := (generate .plain 2 (.ofSeed 7)).1.run .plain renewed
    own.ids = [1, 2] ∧ ofPublished own.publish = .ok own.toPublic := by
  have hrun : drawnIn .plain renewed (generate .plain 2 (.ofSeed 7)).1 = 1 ∧
      ((generate .plain 2 (.ofSeed 7)).1.run .plain renewed).ids = [1, 2] := by
    decide +kernel
  obtain ⟨hdrawn, hids⟩ := hrun
  have hfew : 2 + drawnIn .plain renewed (generate .plain 2 (.ofSeed 7)).1 < UInt32.size := by
    rw [hdrawn]
    decide
  obtain ⟨⟨read, hread, -, -, -, hnewest⟩, -⟩ := generated_publish .plain 2 (.ofSeed 7) renewed
  refine ⟨hfew, hids, hread.trans (congrArg Except.ok ((hnewest hfew).mpr (.inr ?_)))⟩
  rw [hids, hdrawn]
  exact ⟨2, List.mem_cons_of_mem _ List.mem_cons_self, rfl⟩

/-- The only key of a bundle is taken out: the next one is to be number one, and a peer reads that
it is to be number zero. -/
theorem publish_forgets_count :
    let own := (generate .standard 1 (.ofSeed 7)).1
    let emptied := own.run .standard (own.oneTimeKeys.map fun k => .erase k.pair.publicKey.bytes)
    ∃ read, ofPublished emptied.publish = .ok read ∧ read.nextId = 0 ∧
      emptied.toPublic.nextId = 1 ∧ read ≠ emptied.toPublic := by
  decide +kernel

end EndToEnd.Bundle

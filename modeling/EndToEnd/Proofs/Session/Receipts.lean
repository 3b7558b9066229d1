import EndToEnd.Proofs.Session.Keeping
import EndToEnd.Proofs.Session.Letters
import EndToEnd.Proofs.Session.Positions

/-!
# The chains that a session has received on

A session receives on one chain after the other, and along each it reads messages at some of the
positions and passes over others. Its receipts note this: which chains there were, the positions at
which messages were read along each, and all messages that were read. The key of every position that
a chain has gone past has been used for one message, or is kept, or was dropped.

So late messages are easily told. A letter of an earlier chain is read exactly if its key is kept and
is due; it was passed over then, on the way to a message that was read behind it. All this holds if
the letter has the authenticator of no other position that the session has gone past, or goes past on
reading it.

Main statements:

- `Accounts.during`: the receipts account for the session after every operation;
- `Accounts.opened_iff`, `Accounts.passed_over`: which letters of earlier chains are read.
-/

namespace EndToEnd

/-- A receiving chain: the key that it starts with, and the positions at which messages were read
along it. -/
structure ReceivedChain where
  first : Key
  accepted : List Nat
deriving DecidableEq

/-- What a session has received: its receiving chains before the current one, the current one, and
the messages that were read, in order. -/
structure Receipts where
  earlier : List ReceivedChain
  current : Option ReceivedChain
  opened : List Bytes
deriving DecidableEq

/-- A position, by the number of its chain and its index there, and its message key. -/
structure KeyPlace where
  place : Nat × Nat
  key : Key

namespace Receipts

open Session (IsKeyOf)

variable {S : Suite} {config : Config} {now : UInt64} {r r' : Receipts} {s mid after : Session}
  {payload plaintext : Bytes} {isHandshake : Bool} {place : Nat × Nat} {key : Key}
  {used kept : List KeyPlace}

/-- The receiving chains in order. -/
def chains (r : Receipts) : List ReceivedChain := r.earlier ++ r.current.toList

/-- A session that has received nothing yet. -/
def start (s : Session) : Receipts := ⟨[], s.receiveChain.map (⟨·, []⟩), []⟩

/-- The chain that a later session has received on is the current one. -/
def turned (S : Suite) (r : Receipts) (s after : Session) : Receipts :=
  match s.onto S after with
  | .error _ => r
  | .ok mid =>
    if mid.theirRatchet = s.theirRatchet then r
    else { r with earlier := r.chains, current := mid.receiveChain.map (⟨·, []⟩) }

/-- A message is read at a position of the current chain. -/
def accepting (r : Receipts) (index : Nat) : Receipts :=
  { r with current := r.current.map fun chain =>
      { chain with accepted := chain.accepted ++ [index] } }

/-- The receipts after a session has read a message: with a kept key if its chain has stayed. -/
def noting (S : Suite) (r : Receipts) (s : Session) (payload : Bytes) (after : Session) : Receipts :=
  { (if after.theirRatchet = s.theirRatchet ∧ after.receiveIndex = s.receiveIndex then r
      else (r.turned S s after).accepting (after.receiveIndex.toNat - 1)) with
    opened := r.opened ++ [payload] }

/-- The receipts after an operation. -/
def during (S : Suite) (r : Receipts) (s : Session) : Session.Operation → Receipts
  | .send .. => r
  | .read config now payload isHandshake =>
    match s.openMessage S config now payload isHandshake with
    | .ok (_, after) => r.noting S s payload after
    | .error _ => r

/-! ## Places -/

/-- A chain has gone past the place, because a message was read there or behind it, and this is the
message key there. -/
def KeyAt (S : Suite) (r : Receipts) (place : Nat × Nat) (key : Key) : Prop :=
  ∃ chain, r.chains[place.1]? = some chain ∧ (∃ top ∈ chain.accepted, place.2 ≤ top) ∧
    key = messageKeyAt S chain.first place.2

/-- The same chains, with more messages read along them, and perhaps more chains. -/
def Extends (r r' : Receipts) : Prop :=
  ∀ (n : Nat) (chain : ReceivedChain), r.chains[n]? = some chain → ∃ chain',
    r'.chains[n]? = some chain' ∧ chain'.first = chain.first ∧ chain.accepted ⊆ chain'.accepted

/-- A key stays where it is when more is received. -/
theorem KeyAt.extends (h : r.KeyAt S place key) (hext : r.Extends r') : r'.KeyAt S place key := by
  obtain ⟨chain, hchain, ⟨top, htop, hle⟩, rfl⟩ := h
  obtain ⟨chain', hchain', hfirst, haccepted⟩ := hext _ chain hchain
  exact ⟨chain', hchain', ⟨top, haccepted htop, hle⟩, by rw [hfirst]⟩

theorem Extends.refl (r : Receipts) : r.Extends r := fun _ chain h => ⟨chain, h, rfl, fun _ => id⟩

/-- Chains that come behind the others change none of them. -/
theorem extends_of_chains {new : List ReceivedChain} (h : r'.chains = r.chains ++ new) :
    r.Extends r' := by
  intro n chain hchain
  refine ⟨chain, ?_, rfl, fun _ => id⟩
  rw [h, List.getElem?_append_left (List.getElem?_eq_some_iff.mp hchain).1]
  exact hchain

/-- Accepting a message notes it on the current chain. -/
theorem chains_accepting {chain : ReceivedChain} (hcurrent : r.current = some chain) (index : Nat) :
    (r.accepting index).chains =
      r.earlier ++ [{ chain with accepted := chain.accepted ++ [index] }] := by
  rw [chains, accepting, hcurrent]
  rfl

/-- With a current chain, it is the last. -/
theorem chains_of_current {chain : ReceivedChain} (hcurrent : r.current = some chain) :
    r.chains = r.earlier ++ [chain] := by
  rw [chains, hcurrent]
  rfl

/-- A chain before the last one, or the last one. -/
theorem getElem?_concat {α : Type} {as : List α} {a b : α} {n : Nat}
    (h : (as ++ [a])[n]? = some b) : as[n]? = some b ∨ n = as.length ∧ b = a := by
  rw [List.getElem?_append] at h
  split at h
  next => exact .inl h
  next hlen =>
    obtain ⟨hlt, hb⟩ := List.getElem?_eq_some_iff.mp h
    rw [List.length_singleton] at hlt
    exact .inr ⟨by omega, by rw [← hb, List.getElem_singleton]⟩

/-- Accepting a message keeps all that was received. -/
theorem extends_accepting (r : Receipts) (index : Nat) : r.Extends (r.accepting index) := by
  cases hcurrent : r.current with
  | none =>
    rw [show r.accepting index = r by rw [accepting, hcurrent, Option.map_none, ← hcurrent]]
    exact .refl r
  | some current =>
    intro n chain hchain
    rw [chains_accepting hcurrent]
    rw [chains_of_current hcurrent] at hchain
    rcases getElem?_concat hchain with hearlier | ⟨rfl, rfl⟩
    · refine ⟨chain, ?_, rfl, fun _ => id⟩
      rw [List.getElem?_append_left (List.getElem?_eq_some_iff.mp hearlier).1]
      exact hearlier
    · exact ⟨_, List.getElem?_concat_length, rfl, List.subset_append_left _ _⟩

/-- A step keeps all that was received. -/
theorem extends_turned (S : Suite) (r : Receipts) (s after : Session) :
    r.Extends (r.turned S s after) := by
  unfold turned
  split
  next => exact .refl r
  next mid _ =>
    split
    next => exact .refl r
    next => exact extends_of_chains rfl

theorem Extends.trans {r'' : Receipts} (h : r.Extends r') (h' : r'.Extends r'') :
    r.Extends r'' := by
  intro n chain hchain
  obtain ⟨chain', hchain', hfirst, haccepted⟩ := h n chain hchain
  obtain ⟨chain'', hchain'', hfirst', haccepted'⟩ := h' n chain' hchain'
  exact ⟨chain'', hchain'', hfirst'.trans hfirst, List.Subset.trans haccepted haccepted'⟩

theorem extends_noting (S : Suite) (r : Receipts) (s : Session) (payload : Bytes) (after : Session) :
    r.Extends (r.noting S s payload after) := by
  have hchains : (r.noting S s payload after).chains =
      (if after.theirRatchet = s.theirRatchet ∧ after.receiveIndex = s.receiveIndex then r
        else (r.turned S s after).accepting (after.receiveIndex.toNat - 1)).chains := rfl
  intro n chain hchain
  rw [hchains]
  split
  next => exact ⟨chain, hchain, rfl, fun _ => id⟩
  next => exact (extends_turned S r s after).trans (extends_accepting _ _) n chain hchain

/-- What a chain has gone past stays behind it. -/
theorem extends_during (S : Suite) (r : Receipts) (s : Session) (op : Session.Operation) :
    r.Extends (r.during S s op) := by
  unfold during
  split
  next => exact .refl r
  next =>
    split
    next => exact extends_noting S r s _ _
    next => exact .refl r

/-! ## The account -/

/-- Every message that was read used up the key of a place that was gone past, those of other places
are kept, and no key is there twice. -/
structure Spends (S : Suite) (r : Receipts) (used kept : List KeyPlace) : Prop where
  past : ∀ p ∈ used ++ kept, r.KeyAt S p.place p.key
  nodup : ((used ++ kept).map (·.place)).Nodup
  opens : List.Forall₂ (fun payload p => IsKeyOf S p.key payload) r.opened used
  /-- Where a message was read along a chain, the key has been used. -/
  accepted : ∀ (n : Nat) (chain : ReceivedChain), r.chains[n]? = some chain →
    ∀ i ∈ chain.accepted, (n, i) ∈ used.map (·.place)

/-- The receipts account for the session: its receiving chain is the current one, gone on behind all
messages that were read along it, and its kept keys are those of places that were passed over. -/
structure Accounts (S : Suite) (r : Receipts) (s : Session) : Prop where
  receiveChain : s.receiveChain =
    r.current.map fun chain => chainKeyAt S chain.first s.receiveIndex.toNat
  behind : ∀ chain ∈ r.current, ∀ i ∈ chain.accepted, i < s.receiveIndex.toNat
  spends : ∃ used kept, r.Spends S used kept ∧ kept.map (·.key) = s.skipped.map (·.key)

/-- What a session has that starts is accounted for by nothing. -/
theorem Accounts.start {first : Option Key} (hstart : Session.Starts S first s) :
    (start s).Accounts S s := by
  obtain ⟨hindex, hnone⟩ := hstart.nothing_received
  have hno (chain : ReceivedChain) (hchain : chain ∈ s.receiveChain.map (⟨·, []⟩)) :
      chain.accepted = [] := by
    obtain ⟨_, -, rfl⟩ := Option.map_eq_some_iff.mp hchain
    rfl
  refine ⟨?_, ?_, [], [], ⟨nofun, List.nodup_nil, .nil, ?_⟩, by rw [hnone]; rfl⟩
  · rw [Receipts.start, hindex, Option.map_map]
    exact (Option.map_id_fun' ▸ rfl : s.receiveChain = s.receiveChain.map id)
  · intro chain hchain i hi
    rw [hno chain hchain] at hi
    exact nomatch hi
  · intro n chain hchain i hi
    have hmem : chain ∈ s.receiveChain.map (⟨·, []⟩) :=
      Option.mem_toList.mp (List.mem_of_getElem? hchain)
    rw [hno chain hmem] at hi
    exact nomatch hi

/-- Only what a session receives is accounted for. -/
theorem Accounts.of_frame (h : r.Accounts S s) (hsame : Session.SameReceiving s after) :
    r.Accounts S after := by
  refine ⟨?_, ?_, ?_⟩
  · rw [hsame.receiveChain, hsame.receiveIndex]
    exact h.receiveChain
  · rw [hsame.receiveIndex]
    exact h.behind
  · rw [hsame.skipped]
    exact h.spends

/-! ### With a kept key -/

/-- One of the available keys is used, and some of the others are kept. -/
theorem exists_kept_of_used {earlier later : List KeyPlace} {p : KeyPlace} {keys : List Key}
    (hpast : ∀ q ∈ used ++ (earlier ++ p :: later), r.KeyAt S q.place q.key)
    (hnodup : ((used ++ (earlier ++ p :: later)).map (·.place)).Nodup)
    (hkeys : keys.Sublist ((earlier ++ later).map (·.key))) :
    ∃ kept, kept.map (·.key) = keys ∧ (∀ q ∈ (used ++ [p]) ++ kept, r.KeyAt S q.place q.key) ∧
      (((used ++ [p]) ++ kept).map (·.place)).Nodup := by
  obtain ⟨kept, hkept, hmap⟩ := List.sublist_map_iff.mp hkeys
  have hperm : (used ++ (earlier ++ p :: later)).Perm ((used ++ [p]) ++ (earlier ++ later)) := by
    rw [List.append_assoc]
    exact List.perm_middle.append_left used
  have hsub := hkept.append_left (used ++ [p])
  refine ⟨kept, hmap.symm, fun q hq => hpast q (hperm.mem_iff.mpr (hsub.subset hq)), ?_⟩
  exact ((hperm.map _).nodup_iff.mp hnodup).sublist (hsub.map _)

/-- A message that is read with a kept key uses it up. -/
theorem Accounts.usesSkipped {before behind : List SkippedKey} {entry : SkippedKey} {body : Bytes}
    (h : r.Accounts S s) (hkey : IsKeyOf S key payload)
    (huses : Session.UsesSkipped S config now s key body before entry behind after) :
    Accounts S { r with opened := r.opened ++ [payload] } after := by
  obtain ⟨used, kept, hspends, hkeys⟩ := h.spends
  rw [huses.after_eq]
  refine ⟨h.receiveChain, h.behind, ?_⟩
  have hsub : (before ++ entry :: behind).Sublist s.skipped := by
    rw [← huses.skipped]
    exact Session.prune_sublist config now s
  have hdue : ((before ++ entry :: behind).map (·.key)).Sublist (kept.map (·.key)) :=
    hkeys ▸ hsub.map _
  -- the keys that are due are those of some kept places, so the one that is used has a place
  obtain ⟨due, hdue, hsplit⟩ := List.sublist_map_iff.mp hdue
  rw [List.map_append, List.map_cons, huses.key_eq] at hsplit
  obtain ⟨earlier, rest, rfl, hearlier, hrest⟩ := List.map_eq_append_iff.mp hsplit.symm
  obtain ⟨p, later, rfl, rfl, hlater⟩ := List.map_eq_cons_iff.mp hrest
  have havailable := hdue.append_left used
  have hothers : ((before ++ behind).map (·.key)).Sublist ((earlier ++ later).map (·.key)) := by
    rw [List.map_append, List.map_append, hearlier, hlater]
  obtain ⟨kept', hkeys', hpast, hnodup⟩ :=
    exists_kept_of_used (fun q hq => hspends.past q (havailable.subset hq))
      (hspends.nodup.sublist (havailable.map _)) hothers
  refine ⟨used ++ [p], kept', ⟨hpast, hnodup, ?_, ?_⟩, hkeys'⟩
  · exact List.rel_append hspends.opens (.cons hkey .nil)
  · intro n chain hchain i hi
    rw [List.map_append]
    exact List.mem_append_left _ (hspends.accepted n chain hchain i hi)

/-! ### On a chain -/

/-- The chain that a message belongs to is the one that a later session has received on. -/
theorem onto_of_readsOn {ratchetKey : Bytes} (h : s.ReadsOn S ratchetKey isHandshake mid)
    (hsame : after.theirRatchet = mid.theirRatchet) : s.onto S after = .ok mid := by
  cases h with
  | known => exact Session.onto_of_theirRatchet hsame
  | @stepped their shared pair hunknown hbytes hpair hshared =>
    have htheir : after.theirRatchet = some their := hsame
    simp only [Session.onto, htheir]
    rw [← hbytes]
    exact Session.reached_iff_readsOn.mpr (.stepped hunknown hbytes hpair hshared)

/-- A ratchet key that is unknown is not the known one. -/
theorem theirRatchet_ne_of_unknown {ratchetKey : Bytes} {their : Key}
    (hunknown : s.theirRatchet.map (·.bytes) ≠ some ratchetKey) (hbytes : ratchetKey = their.bytes) :
    some their ≠ s.theirRatchet := by
  intro hknown
  rw [← hknown, hbytes] at hunknown
  exact hunknown rfl

/-- A step to a new chain keeps the skipped keys. -/
theorem skipped_of_readsOn {ratchetKey : Bytes} (h : s.ReadsOn S ratchetKey isHandshake mid) :
    mid.skipped = s.skipped := by
  cases h with
  | known => rfl
  | stepped => rfl

/-- A chain is begun with nothing read along it. -/
theorem Accounts.turned {ratchetKey : Bytes} (h : r.Accounts S s)
    (hreads : s.ReadsOn S ratchetKey isHandshake mid)
    (hsame : after.theirRatchet = mid.theirRatchet) :
    (r.turned S s after).Accounts S mid ∧ (r.turned S s after).opened = r.opened ∧
      r.earlier.length ≤ (r.turned S s after).earlier.length := by
  unfold Receipts.turned
  rw [onto_of_readsOn hreads hsame]
  cases hreads with
  | known =>
    dsimp only
    rw [if_pos rfl]
    exact ⟨h, rfl, Nat.le_refl _⟩
  | @stepped their shared pair hunknown hbytes hpair hshared =>
    dsimp only
    have hother : (s.steppedToReceive S their shared).theirRatchet ≠ s.theirRatchet :=
      theirRatchet_ne_of_unknown hunknown hbytes
    rw [if_neg hother]
    let new : ReceivedChain := ⟨(RootStep.next S s.root shared).chain, []⟩
    have hchains : chains { r with earlier := r.chains, current := some new } = r.chains ++ [new] :=
      rfl
    refine ⟨⟨rfl, ?_, ?_⟩, rfl, ?_⟩
    · rintro chain ⟨⟩
      exact nofun
    · obtain ⟨used, kept, hspends, hkeys⟩ := h.spends
      refine ⟨used, kept, ⟨fun p hp => (hspends.past p hp).extends (extends_of_chains hchains),
        hspends.nodup, hspends.opens, ?_⟩, hkeys⟩
      intro n chain hchain
      replace hchain : (r.chains ++ [new])[n]? = some chain := hchain
      rcases getElem?_concat hchain with hearlier | ⟨-, rfl⟩
      · exact hspends.accepted n chain hearlier
      · exact nofun
    · show r.earlier.length ≤ (r.earlier ++ r.current.toList).length
      rw [List.length_append]
      exact Nat.le_add_right _ _

/-- What the current chain has gone past is behind the session. -/
theorem Accounts.lt_of_keyAt (h : r.Accounts S s) {i : Nat}
    (hpast : r.KeyAt S (r.earlier.length, i) key) : i < s.receiveIndex.toNat := by
  obtain ⟨chain, hchain, ⟨top, htop, hle⟩, -⟩ := hpast
  rw [chains, List.getElem?_append_right (Nat.le_refl _), Nat.sub_self] at hchain
  have hcurrent : chain ∈ r.current := Option.mem_toList.mp (List.mem_of_getElem? hchain)
  exact Nat.lt_of_le_of_lt hle (h.behind chain hcurrent top htop)

/-- The places of the current chain from that of the session on, and their keys. -/
def ahead (S : Suite) (r : Receipts) (s : Session) (chain : Key) (count : Nat) : List KeyPlace :=
  (List.range count).map fun i =>
    ⟨(r.earlier.length, s.receiveIndex.toNat + i), messageKeyAt S chain i⟩

/-- They are gone past when a message is read at the last of them. -/
theorem Accounts.keyAt_ahead (h : r.Accounts S s) {chain : Key} (hchain : s.receiveChain = some chain)
    {i gap : Nat} (hle : i ≤ gap) : (r.accepting (s.receiveIndex.toNat + gap)).KeyAt S
      (r.earlier.length, s.receiveIndex.toNat + i) (messageKeyAt S chain i) := by
  obtain ⟨current, hcurrent, hkey⟩ := Option.map_eq_some_iff.mp (h.receiveChain.symm.trans hchain)
  rw [KeyAt, chains_accepting hcurrent]
  refine ⟨_, List.getElem?_concat_length, ⟨_, List.mem_append_right _ List.mem_cons_self,
    Nat.add_le_add_left hle _⟩, ?_⟩
  show messageKeyAt S chain i = messageKeyAt S current.first (s.receiveIndex.toNat + i)
  rw [messageKeyAt, messageKeyAt, chainKeyAt_add, hkey]

/-- What was gone past then is what was gone past before, and they. -/
theorem Accounts.past_ahead (h : r.Accounts S s) {chain : Key} (hchain : s.receiveChain = some chain)
    {places : List KeyPlace} (hpast : ∀ p ∈ places, r.KeyAt S p.place p.key) (gap : Nat) :
    ∀ p ∈ places ++ r.ahead S s chain (gap + 1),
      (r.accepting (s.receiveIndex.toNat + gap)).KeyAt S p.place p.key := by
  intro p hp
  rcases List.mem_append.mp hp with hold | hnew
  · exact (hpast p hold).extends (extends_accepting r _)
  · obtain ⟨i, hi, rfl⟩ := List.mem_map.mp hnew
    exact h.keyAt_ahead hchain (Nat.le_of_lt_succ (List.mem_range.mp hi))

/-- They were not gone past before. -/
theorem Accounts.nodup_ahead (h : r.Accounts S s) {places : List KeyPlace}
    (hpast : ∀ p ∈ places, r.KeyAt S p.place p.key) (hnodup : (places.map (·.place)).Nodup)
    (chain : Key) (count : Nat) : ((places ++ r.ahead S s chain count).map (·.place)).Nodup := by
  rw [List.map_append, List.nodup_append]
  refine ⟨hnodup, ?_, ?_⟩
  · rw [ahead, List.map_map]
    refine List.nodup_range.map fun i j hij => ?_
    exact Nat.add_left_cancel (Prod.mk.inj hij).2
  · intro place hplace place' hplace' hsame
    obtain ⟨p, hp, rfl⟩ := List.mem_map.mp hplace
    obtain ⟨q, hq, rfl⟩ := List.mem_map.mp hplace'
    obtain ⟨i, -, rfl⟩ := List.mem_map.mp hq
    have hlt := h.lt_of_keyAt (hsame ▸ hpast p hp)
    omega

/-- Messages were read at the positions where they were read before, and at this one. -/
theorem accepted_accepting {current read : ReceivedChain} {n i index : Nat}
    (hcurrent : r.current = some current) (hread : (r.accepting index).chains[n]? = some read)
    (hi : i ∈ read.accepted) :
    (∃ chain, r.chains[n]? = some chain ∧ i ∈ chain.accepted) ∨
      (n, i) = (r.earlier.length, index) := by
  rw [chains_accepting hcurrent] at hread
  rw [chains_of_current hcurrent]
  rcases getElem?_concat hread with hearlier | ⟨rfl, rfl⟩
  · refine .inl ⟨read, ?_, hi⟩
    rw [List.getElem?_append_left (List.getElem?_eq_some_iff.mp hearlier).1]
    exact hearlier
  · rcases List.mem_append.mp hi with hold | hnew
    · exact .inl ⟨current, List.getElem?_concat_length, hold⟩
    · exact .inr (congrArg _ (List.mem_singleton.mp hnew))

/-- A message that is read at its position of the current chain uses up the key there, and the keys in
front of it are kept. -/
theorem Accounts.advances {chain : Key} {gap : Nat} (h : r.Accounts S s)
    (hchain : s.receiveChain = some chain)
    (hafter : after.receiveChain = some (chainKeyAt S chain (gap + 1)))
    (hindex : after.receiveIndex.toNat = s.receiveIndex.toNat + gap + 1)
    (hkey : IsKeyOf S (messageKeyAt S chain gap) payload)
    (hkept : (after.skipped.map (·.key)).Sublist
      (s.skipped.map (·.key) ++ (List.range gap).map (messageKeyAt S chain))) :
    Accounts S { r.accepting (s.receiveIndex.toNat + gap) with opened := r.opened ++ [payload] }
      after := by
  obtain ⟨current, hcurrent, hfirst⟩ :=
    Option.map_eq_some_iff.mp (h.receiveChain.symm.trans hchain)
  obtain ⟨used, kept, hspends, hkeys⟩ := h.spends
  let target : KeyPlace :=
    ⟨(r.earlier.length, s.receiveIndex.toNat + gap), messageKeyAt S chain gap⟩
  -- of the places ahead the last one is the message's own, and the others are passed over
  have hplaces : used ++ kept ++ r.ahead S s chain (gap + 1) =
      used ++ ((kept ++ r.ahead S s chain gap) ++ [target]) := by
    rw [ahead, List.range_succ, List.map_append, ← List.append_assoc, ← List.append_assoc,
      ← List.append_assoc]
    rfl
  have hpast := h.past_ahead hchain hspends.past gap
  have hnodup := h.nodup_ahead hspends.past hspends.nodup chain (gap + 1)
  rw [hplaces] at hpast hnodup
  have havailable : (kept ++ r.ahead S s chain gap).map (·.key) =
      s.skipped.map (·.key) ++ (List.range gap).map (messageKeyAt S chain) := by
    rw [List.map_append, hkeys, ahead, List.map_map]
    rfl
  rw [← havailable, ← List.append_nil (kept ++ _)] at hkept
  obtain ⟨kept', hkeys', hpast', hnodup'⟩ := exists_kept_of_used hpast hnodup hkept
  refine ⟨?_, ?_, used ++ [target], kept', ⟨hpast', hnodup', ?_, ?_⟩, hkeys'⟩
  · show after.receiveChain = (r.current.map _).map _
    rw [hafter, hcurrent, hindex, ← hfirst]
    show some _ = some (chainKeyAt S current.first _)
    rw [← chainKeyAt_add, Nat.add_assoc]
  · intro read hread i hi
    replace hread : r.current.map _ = some read := hread
    rw [hcurrent] at hread
    obtain rfl := Option.some.inj hread
    rcases List.mem_append.mp hi with hi | hi
    · have := h.behind current hcurrent i hi
      omega
    · rw [List.mem_singleton.mp hi]
      omega
  · exact List.rel_append hspends.opens (.cons hkey .nil)
  · intro n read hread i hi
    rw [List.map_append]
    rcases accepted_accepting hcurrent hread hi with ⟨chain', hchain', hold⟩ | hnew
    · exact List.mem_append_left _ (hspends.accepted n chain' hchain' i hold)
    · rw [hnew]
      exact List.mem_append_right _ List.mem_cons_self

/-- A message that is read on a chain is noted at its position there, which is on no earlier chain. -/
theorem Accounts.usesChain {chain : Key} {body : Bytes} {m : Wire.RatchetMessage}
    (h : r.Accounts S s) (hkey : IsKeyOf S key payload)
    (huses : Session.UsesChain S config now s key body m isHandshake mid chain after) :
    (r.noting S s payload after).Accounts S after ∧
      ∃ n, r.earlier.length ≤ n ∧
        (r.noting S s payload after).KeyAt S (n, m.chainIndex.toNat) key := by
  obtain ⟨next, hnext, hafter⟩ := huses.after_eq
  have hratchet : after.theirRatchet = mid.theirRatchet := by rw [hafter]; rfl
  have hindex : after.receiveIndex = next := by rw [hafter]; rfl
  -- the session shows that it went along the chain: its position or its ratchet key is another
  have hmoved : ¬ (after.theirRatchet = s.theirRatchet ∧ after.receiveIndex = s.receiveIndex) := by
    rintro ⟨hsameRatchet, hsameIndex⟩
    have hbehind := huses.notBehind
    cases huses.readsOn with
    | known =>
      rw [← hsameIndex, hindex] at hbehind
      omega
    | stepped hunknown hbytes =>
      exact theirRatchet_ne_of_unknown hunknown hbytes (hratchet.symm.trans hsameRatchet)
  have hgap : mid.receiveIndex.toNat + mid.ahead m.chainIndex = m.chainIndex.toNat :=
    Nat.add_sub_cancel' huses.notBehind
  have hnoting : r.noting S s payload after =
      { (r.turned S s after).accepting (mid.receiveIndex.toNat + mid.ahead m.chainIndex) with
        opened := r.opened ++ [payload] } := by
    rw [noting, if_neg hmoved, hindex, hnext, hgap, Nat.add_sub_cancel]
  obtain ⟨haccounts, hopened, hlength⟩ := h.turned huses.readsOn hratchet
  obtain rfl := huses.key_eq
  rw [hnoting]
  refine ⟨?_, (r.turned S s after).earlier.length, hlength, ?_⟩
  · rw [← hopened]
    refine haccounts.advances huses.receiveChain (by rw [hafter]; rfl) ?_ hkey ?_
    · rw [hindex, hnext, hgap]
    · rw [hafter, skipped_of_readsOn huses.readsOn]
      refine ((Session.prune_sublist config now _).map _).trans ?_
      show (((s.prune config now).skipped ++ _).map _).Sublist _
      rw [List.map_append, List.map_map]
      refine List.Sublist.append ((Session.prune_sublist config now s).map _) ?_
      rw [show SkippedKey.key ∘ SkippedKey.mk now = id from rfl, List.map_id]
  · have hlast := haccounts.keyAt_ahead huses.receiveChain (Nat.le_refl (mid.ahead m.chainIndex))
    rw [hgap] at hlast ⊢
    exact hlast

/-- The receipts account for a session after it has read a message. -/
theorem Accounts.noting (h : r.Accounts S s)
    (hopen : s.openMessage S config now payload isHandshake = .ok (plaintext, after)) :
    (r.noting S s payload after).Accounts S after := by
  obtain ⟨body, mac, m, key, hsplit, -, rfl, -, huses⟩ := Session.openMessage_byKey hopen
  have hkey : IsKeyOf S key payload := ⟨_, hsplit, beq_self_eq_true _⟩
  rcases huses with ⟨before, entry, behind, huses⟩ | ⟨mid, chain, huses⟩
  · have hstays : after.theirRatchet = s.theirRatchet ∧ after.receiveIndex = s.receiveIndex := by
      rw [huses.after_eq]
      exact ⟨rfl, rfl⟩
    rw [Receipts.noting, if_pos hstays]
    exact h.usesSkipped hkey huses
  · exact (h.usesChain hkey huses).1

/-- The receipts account for the session after any operation. -/
theorem Accounts.during (h : r.Accounts S s) (op : Session.Operation) :
    (r.during S s op).Accounts S (s.perform S op) := by
  cases op with
  | send isHandshake plaintext env =>
    rw [Session.perform]
    cases hsealed : (s.sealAs S isHandshake plaintext env).1 with
    | error => exact h
    | ok done => exact h.of_frame (Session.sealAs_spares hsealed).1
  | read config now payload isHandshake =>
    rw [Session.perform, Receipts.during]
    cases hopened : s.openMessage S config now payload isHandshake with
    | error => exact h
    | ok done => exact h.noting hopened

/-! ## Late letters -/

/-- Of all places that were gone past, a message has the authenticator of one at most. -/
def Distinguishes (S : Suite) (r : Receipts) (payload : Bytes) (place : Nat × Nat) : Prop :=
  ∀ other key, r.KeyAt S other key → IsKeyOf S key payload → other = place

instance : Decidable (r.Distinguishes S payload place) :=
  decidable_of_iff (∀ entry ∈ r.chains.zipIdx, ∀ top ∈ entry.1.accepted, ∀ i ∈ List.range top.succ,
      IsKeyOf S (messageKeyAt S entry.1.first i) payload → (entry.2, i) = place) <| by
    constructor
    · rintro h ⟨n, i⟩ _ ⟨chain, hchain, ⟨top, htop, hle⟩, rfl⟩ hkey
      exact h (chain, n) (List.mem_zipIdx_iff_getElem?.mpr hchain) top htop i
        (List.mem_range.mpr (Nat.lt_succ_of_le hle)) hkey
    · rintro h ⟨chain, n⟩ hentry top htop i hi hkey
      exact h (n, i) _ ⟨chain, List.mem_zipIdx_iff_getElem?.mp hentry,
        ⟨top, htop, Nat.le_of_lt_succ (List.mem_range.mp hi)⟩, rfl⟩ hkey

/-- What tells a message from all places tells it from fewer. -/
theorem Distinguishes.of_extends (h : r'.Distinguishes S payload place) (hext : r.Extends r') :
    r.Distinguishes S payload place :=
  fun other key hpast hkey => h other key (hpast.extends hext) hkey

variable {l : Letter} {ratchetKey : Key} {j : Nat} {chain : ReceivedChain} {entry : SkippedKey}

/-- An earlier chain has its number among all. -/
theorem getElem?_chains (hchain : r.earlier[j]? = some chain) : r.chains[j]? = some chain := by
  rw [chains, List.getElem?_append_left (List.getElem?_eq_some_iff.mp hchain).1]
  exact hchain

/-- A letter has the authenticator of its own key. -/
theorem isKeyOf_letter {first : Key} (hl : l.IsSealed S ratchetKey first) :
    IsKeyOf S l.key l.payload := by
  obtain ⟨body, mac, hsplit, -, hverifies⟩ := hl.parts
  exact ⟨_, hsplit, hverifies⟩

/-- Whatever is read with a letter's key is its plaintext. -/
theorem decrypts_letter (hcipher : S.CipherUndoes) {first : Key} (hl : l.IsSealed S ratchetKey first)
    {body : Bytes} {mac : Mac} {m : Wire.RatchetMessage}
    (hsplit : Wire.splitMac l.payload = .ok (body, mac))
    (hdecode : Wire.RatchetMessage.decode body = .ok m) :
    (MessageKeys.ofKey S l.key).decrypt S m.ciphertext = .ok l.plaintext :=
  Session.SealedWith.decrypts hcipher ⟨_, _, hl.payload⟩ hsplit hdecode

/-- The only key of a place that was gone past which has a letter's authenticator is its own. -/
theorem Distinguishes.key_eq (hown : r.Distinguishes S l.payload (j, l.index.toNat))
    (hchain : r.earlier[j]? = some chain) (hl : l.IsSealed S ratchetKey chain.first)
    (hpast : r.KeyAt S place key) (hkey : IsKeyOf S key l.payload) : key = l.key := by
  obtain rfl := hown place key hpast hkey
  obtain ⟨chain', hchain', -, rfl⟩ := hpast
  obtain rfl := Option.some.inj ((getElem?_chains hchain).symm.trans hchain')
  exact hl.key.symm

/-- Every kept key has its place. -/
theorem Accounts.keyAt_of_skipped (h : r.Accounts S s) (hentry : entry ∈ s.skipped) :
    ∃ place, r.KeyAt S place entry.key := by
  obtain ⟨used, kept, hspends, hkeys⟩ := h.spends
  have hmem : entry.key ∈ kept.map (·.key) := hkeys ▸ List.mem_map_of_mem hentry
  obtain ⟨p, hp, hkey⟩ := List.mem_map.mp hmem
  exact ⟨p.place, hkey ▸ hspends.past p (List.mem_append_right _ hp)⟩

/-- A letter of an earlier chain whose key is kept was passed over, on the way to a message that was
read behind it, and was not read itself. -/
theorem Accounts.passed_over (h : r.Accounts S s) (hchain : r.earlier[j]? = some chain)
    (hl : l.IsSealed S ratchetKey chain.first)
    (hown : r.Distinguishes S l.payload (j, l.index.toNat)) (hentry : entry ∈ s.skipped)
    (hkey : entry.key = l.key) :
    l.payload ∉ r.opened ∧ ∃ top ∈ chain.accepted, l.index.toNat < top := by
  obtain ⟨used, kept, hspends, hkeys⟩ := h.spends
  have hmem : entry.key ∈ kept.map (·.key) := hkeys ▸ List.mem_map_of_mem hentry
  obtain ⟨p, hp, hpkey⟩ := List.mem_map.mp hmem
  have hpast := hspends.past p (List.mem_append_right _ hp)
  have hplace := hown p.place p.key hpast (by
    rw [hpkey, hkey]
    exact isKeyOf_letter hl)
  -- a place that is kept has not been used
  have hunused (q : KeyPlace) (hq : q ∈ used) : q.place ≠ (j, l.index.toNat) := by
    intro hsame
    have hnodup := hspends.nodup
    rw [List.map_append, List.nodup_append] at hnodup
    exact hnodup.2.2 _ (List.mem_map_of_mem hq) _ (List.mem_map_of_mem hp)
      (hsame.trans hplace.symm)
  constructor
  · intro hread
    obtain ⟨i, hi, hpayload⟩ := List.getElem_of_mem hread
    have hi' := hspends.opens.length_eq ▸ hi
    have hopens := hspends.opens.get hi hi'
    simp only [List.get_eq_getElem, hpayload] at hopens
    have hmem := List.getElem_mem hi'
    exact hunused _ hmem
      (hown _ _ (hspends.past _ (List.mem_append_left _ hmem)) hopens)
  · rw [hplace] at hpast
    obtain ⟨chain', hchain', ⟨top, htop, hle⟩, -⟩ := hpast
    obtain rfl := Option.some.inj ((getElem?_chains hchain).symm.trans hchain')
    refine ⟨top, htop, Nat.lt_of_le_of_ne hle fun hsame => ?_⟩
    obtain ⟨q, hq, hqplace⟩ := List.mem_map.mp (hspends.accepted j chain hchain' top htop)
    exact hunused q hq (hqplace.trans (congrArg (Prod.mk j) hsame.symm))

/-- A letter of an earlier chain that is read is read with its own kept key, and nothing but that key
and those that are not due leaves the session. -/
theorem Accounts.opened_with_kept (h : r.Accounts S s) (hcipher : S.CipherUndoes)
    (hchain : r.earlier[j]? = some chain) (hl : l.IsSealed S ratchetKey chain.first)
    (hown : (r.during S s (.read config now l.payload isHandshake)).Distinguishes S l.payload
      (j, l.index.toNat))
    (hopen : s.openMessage S config now l.payload isHandshake = .ok (plaintext, after)) :
    plaintext = l.plaintext ∧ ∃ before entry behind, s.Due config now entry ∧ entry.key = l.key ∧
      (s.prune config now).skipped = before ++ entry :: behind ∧
      after = { s with skipped := before ++ behind } := by
  have hbefore := hown.of_extends (extends_during S r s _)
  obtain ⟨body, mac, m, key, hsplit, hdecode, rfl, hplain, huses⟩ := Session.openMessage_byKey hopen
  have hkey : IsKeyOf S key l.payload := ⟨_, hsplit, beq_self_eq_true _⟩
  rcases huses with ⟨before, entry, behind, huses⟩ | ⟨mid, _, huses⟩
  · have hmem := (Session.prune_sublist config now s).subset (Session.mem_prune_iff.mpr huses.due)
    obtain ⟨place, hpast⟩ := h.keyAt_of_skipped hmem
    rw [huses.key_eq] at hpast
    obtain rfl := hbefore.key_eq hchain hl hpast hkey
    rw [decrypts_letter hcipher hl hsplit hdecode] at hplain
    exact ⟨(Except.ok.inj hplain).symm, before, entry, behind, huses.due, huses.key_eq,
      huses.skipped, huses.after_eq⟩
  · -- on a chain it would be read at a place of a later one
    obtain ⟨-, n, hle, hpast⟩ := h.usesChain hkey huses
    rw [Receipts.during, hopen] at hown
    have hplace := hown _ _ hpast hkey
    have hlt := (List.getElem?_eq_some_iff.mp hchain).1
    rw [(Prod.mk.inj hplace).1] at hle
    exact absurd hlt (Nat.not_lt_of_le hle)

/-- A letter of an earlier chain is read exactly if its key is kept and is due. -/
theorem Accounts.opened_iff (h : r.Accounts S s) (hcipher : S.CipherUndoes)
    (hchain : r.earlier[j]? = some chain) (hl : l.IsSealed S ratchetKey chain.first)
    (hown : (r.during S s (.read config now l.payload isHandshake)).Distinguishes S l.payload
      (j, l.index.toNat)) :
    (∃ opened, s.openMessage S config now l.payload isHandshake = .ok opened) ↔
      ∃ entry, s.Due config now entry ∧ entry.key = l.key := by
  constructor
  · rintro ⟨⟨plaintext, after⟩, hopen⟩
    obtain ⟨-, before, entry, behind, hdue, hkey, -⟩ :=
      h.opened_with_kept hcipher hchain hl hown hopen
    exact ⟨entry, hdue, hkey⟩
  · rintro ⟨entry, hdue, hkey⟩
    have hbefore := hown.of_extends (extends_during S r s _)
    obtain ⟨body, mac, hsplit, hdecode, hverifies⟩ := hl.parts
    rcases Session.openSkipped_cases S (s.prune config now) body mac.bytes
        (l.message S ratchetKey).ciphertext with ⟨hnone, -⟩ | ⟨k, hk, hopens, i, hsome⟩
    · have hopens : entry.opens S body mac.bytes = true := by
        rw [SkippedKey.opens, hkey]
        exact hverifies
      exact nomatch hopens.symm.trans (hnone entry (Session.mem_prune_iff.mpr hdue))
    · -- the first kept key that opens it is its own
      obtain ⟨place, hpast⟩ :=
        h.keyAt_of_skipped ((Session.prune_sublist config now s).subset hk)
      have hown := hbefore.key_eq hchain hl hpast ⟨_, hsplit, hopens⟩
      have hplain := decrypts_letter hcipher hl hsplit hdecode
      rw [← hown] at hplain
      rw [Session.openWith_eq_ok.mpr hplain] at hsome
      exact ⟨_, Session.openMessage_eq_ok.mpr ⟨body, mac, _, hsplit, hdecode, .inl hsome⟩⟩

end Receipts

end EndToEnd

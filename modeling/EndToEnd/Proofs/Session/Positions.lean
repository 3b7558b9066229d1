import EndToEnd.Proofs.Session.Opening
import EndToEnd.Proofs.Session.Sealing
import Mathlib.Data.List.Forall2
import Mathlib.Data.List.Nodup

/-!
# Message keys are used once

A session reads a message with a key that it has kept, or with one that its receiving chain comes to.
Each such key is that of a position, an index of a receiving chain, and the key is used up or kept
when the chain goes past it. The chains of the sessions with one other device are told apart by the
one-time key that a session was started with, and by the steps that it has taken since.

So a position is gone past once and its key is used once. If the keys of different positions differ,
and no message has the authenticator of two of them, then no message is read twice.

Main statements:

- `openMessage_uses`: a message is read with one key, of those that are kept and those that the chain
  goes past, and that key is not kept;
- `Reception.Tracks.reading`: reading a message keeps the account of the positions;
- `Reception.Spends.nodup_opened`: no message is read twice.
-/

namespace EndToEnd

/-- A receiving chain of the sessions with one other device: the one-time key of ours that the session
was started with, if it was, and how many receiving steps the session had taken. -/
structure ChainName where
  oneTime : Option Bytes
  steps : Nat
deriving DecidableEq

/-- A position of a receiving chain, and its message key. -/
structure Position where
  chain : ChainName
  index : Nat
  key : Key
deriving DecidableEq

/-- Where a position is. -/
def Position.place (p : Position) : ChainName × Nat := (p.chain, p.index)

namespace Session

variable {S : Suite} {config : Config} {now : UInt64} {s mid after : Session}
  {payload plaintext : Bytes} {isHandshake : Bool}

/-- The message key is that of a ratchet message, by its authenticator. -/
def IsKeyOf (S : Suite) (key : Key) (payload : Bytes) : Prop :=
  ∃ parts, Wire.splitMac payload = .ok parts ∧
    (MessageKeys.ofKey S key).verifies S parts.1 parts.2.bytes = true

instance {key : Key} : Decidable (IsKeyOf S key payload) :=
  inferInstanceAs (Decidable (∃ parts, Wire.splitMac payload = .ok parts ∧ _))

/-- The session on whose receiving chain a later one goes on: it has taken a step if the peer's
ratchet key is another one by then. -/
def onto (S : Suite) (s after : Session) : Except SessionError Session :=
  match after.theirRatchet with
  | none => .ok s
  | some their => s.reached S their.bytes false

/-- The positions that the receiving chain has gone past until a later session, and their keys. -/
def passed (S : Suite) (s after : Session) : List (Nat × Key) :=
  match s.onto S after with
  | .error _ => []
  | .ok mid =>
    match mid.receiveChain with
    | none => []
    | some chain =>
      (List.range (after.receiveIndex.toNat - mid.receiveIndex.toNat)).map fun i =>
        (mid.receiveIndex.toNat + i, messageKeyAt S chain i)

theorem onto_of_theirRatchet (h : after.theirRatchet = s.theirRatchet) : s.onto S after = .ok s := by
  unfold onto
  split
  next => rfl
  next their htheir => exact reached_eq_ok.mpr (.inl ⟨.inr (h.symm.trans htheir), rfl⟩)

/-- The positions gone past are distinct and before the later session's, and not before the earlier
one's if there was no step in between. -/
theorem passed_bounds (S : Suite) (s after : Session) :
    ((s.passed S after).map (·.1)).Nodup ∧ ∀ p ∈ s.passed S after,
      p.1 < after.receiveIndex.toNat ∧
        (after.theirRatchet = s.theirRatchet → s.receiveIndex.toNat ≤ p.1) := by
  unfold passed
  split
  next => exact ⟨List.nodup_nil, nofun⟩
  next mid hmid =>
    split
    next => exact ⟨List.nodup_nil, nofun⟩
    next chain =>
      refine ⟨?_, fun p hp => ?_⟩
      · rw [List.map_map]
        exact List.nodup_range.map fun i j hij => Nat.add_left_cancel hij
      · obtain ⟨i, hi, rfl⟩ := List.mem_map.mp hp
        have hi := List.mem_range.mp hi
        refine ⟨by simp only; omega, fun hsame => ?_⟩
        obtain rfl := Except.ok.inj ((onto_of_theirRatchet hsame).symm.trans hmid)
        exact Nat.le_add_right _ _

/-- The skipped keys have no part in which chain is gone on. -/
theorem onto_of_reached {theirRatchet : Bytes} {kept : List SkippedKey}
    (h : ({ s with skipped := kept } : Session).reached S theirRatchet isHandshake = .ok mid)
    (hsame : after.theirRatchet = mid.theirRatchet) :
    ∃ start, s.onto S after = .ok start ∧ start.receiveChain = mid.receiveChain ∧
      start.receiveIndex = mid.receiveIndex ∧ mid.skipped = kept := by
  unfold reached at h
  split at h
  next hnew =>
    obtain ⟨pair, shared, their, hpair, hbytes, hshared, rfl⟩ := receiveStep_eq_ok.mp h
    rw [hbytes, Bool.and_eq_true] at hnew
    refine ⟨s.steppedToReceive S their shared, ?_, rfl, rfl, rfl⟩
    have htheir : after.theirRatchet = some their := hsame
    simp only [onto, htheir]
    exact reached_eq_ok.mpr (.inr ⟨rfl, isNewRatchet_bytes.mp hnew.2, pair, shared, hpair, hshared,
      rfl⟩)
  next =>
    obtain rfl := Except.ok.inj h
    exact ⟨s, onto_of_theirRatchet hsame, rfl, rfl, rfl⟩

/-- A message is read with a key that was kept, or at a position that the receiving chain comes to. -/
theorem openMessage_cases
    (h : s.openMessage S config now payload isHandshake = .ok (plaintext, after)) :
    (after.theirRatchet = s.theirRatchet ∧ after.receiveIndex = s.receiveIndex ∧
      ∃ before k behind, (before ++ k :: behind).Sublist s.skipped ∧ IsKeyOf S k.key payload ∧
        after.skipped = before ++ behind) ∨
    ∃ mid chain gap, s.onto S after = .ok mid ∧ mid.receiveChain = some chain ∧
      after.receiveIndex.toNat = mid.receiveIndex.toNat + (gap + 1) ∧
      IsKeyOf S (messageKeyAt S chain gap) payload ∧
      (after.skipped.map (·.key)).Sublist
        (s.skipped.map (·.key) ++ (List.range gap).map (messageKeyAt S chain)) := by
  obtain ⟨body, mac, m, hsplit, -, hskipped | ⟨-, reached, fin, hreached, honChain, rfl⟩⟩ :=
    openMessage_eq_ok.mp h
  · obtain ⟨before, k, behind, hkept, -, hopens, -, rfl⟩ := openSkipped_eq_some_iff.mp hskipped
    refine .inl ⟨rfl, rfl, before, k, behind, ?_, ⟨_, hsplit, hopens⟩, rfl⟩
    exact hkept ▸ prune_sublist config now s
  · obtain ⟨chain, next, hchain, hle, -, hverifies, -, hnext, rfl⟩ := openOnChain_eq_ok.mp honChain
    have hsucc := nextIndex_eq_ok.mp hnext
    obtain ⟨mid, hmid, hmidChain, hmidIndex, hkept⟩ := onto_of_reached hreached rfl
    refine .inr ⟨mid, chain, reached.ahead m.chainIndex, hmid, hmidChain.trans hchain, ?_,
      ⟨_, hsplit, hverifies⟩, ?_⟩
    · show next.toNat = _
      rw [hsucc, hmidIndex, ahead]
      omega
    · refine ((prune_sublist config now _).map _).trans ?_
      show ((reached.skipped ++ _).map _).Sublist _
      rw [List.map_append, List.map_map]
      refine List.Sublist.append (hkept ▸ (prune_sublist config now s).map _) ?_
      rw [show SkippedKey.key ∘ SkippedKey.mk now = id from rfl, List.map_id]

/-- Reading a message that takes no step does not go back. -/
theorem receiveIndex_le_of_openMessage
    (h : s.openMessage S config now payload isHandshake = .ok (plaintext, after))
    (hsame : after.theirRatchet = s.theirRatchet) :
    s.receiveIndex.toNat ≤ after.receiveIndex.toNat := by
  rcases openMessage_cases h with ⟨-, hindex, -⟩ | ⟨mid, chain, gap, hmid, -, hindex, -⟩
  · exact Nat.le_of_eq (congrArg UInt32.toNat hindex.symm)
  · obtain rfl := Except.ok.inj ((onto_of_theirRatchet hsame).symm.trans hmid)
    rw [hindex]
    exact Nat.le_add_right _ _

/-- A message is read with one key: of those that are kept, or of those that the receiving chain goes
past. The others may be kept. -/
theorem openMessage_uses
    (h : s.openMessage S config now payload isHandshake = .ok (plaintext, after)) :
    ∃ before key behind,
      s.skipped.map (·.key) ++ (s.passed S after).map (·.2) = before ++ key :: behind ∧
        IsKeyOf S key payload ∧ (after.skipped.map (·.key)).Sublist (before ++ behind) := by
  rcases openMessage_cases h with ⟨hsame, hindex, before, k, behind, hkept, hkey, hafter⟩ |
    ⟨mid, chain, gap, hmid, hchain, hindex, hkey, hkept⟩
  · have hpassed : s.passed S after = [] := by
      simp only [passed, onto_of_theirRatchet hsame, hindex, Nat.sub_self, List.range_zero,
        List.map_nil]
      split <;> rfl
    obtain ⟨first, rest, hskipped, hbefore, hrest⟩ := List.append_sublist_iff.mp hkept
    obtain ⟨between, last, rfl, hmem, hlast⟩ := List.cons_sublist_iff.mp hrest
    obtain ⟨early, late, rfl⟩ := List.append_of_mem hmem
    refine ⟨(first ++ early).map (·.key), k.key, (late ++ last).map (·.key), ?_, hkey, ?_⟩
    · rw [hpassed, hskipped]
      simp only [List.map_append, List.map_cons, List.map_nil, List.append_nil, List.append_assoc,
        List.cons_append]
    · rw [hafter, ← List.map_append]
      refine List.Sublist.map _ (List.Sublist.append ?_ ?_)
      · exact hbefore.trans (List.sublist_append_left _ _)
      · exact hlast.trans (List.sublist_append_right _ _)
  · have hpassed : (s.passed S after).map (·.2) =
        (List.range gap).map (messageKeyAt S chain) ++ [messageKeyAt S chain gap] := by
      simp only [passed, hmid, hchain, hindex, Nat.add_sub_cancel_left, List.range_succ,
        List.map_append, List.map_map, List.map_singleton]
      rfl
    refine ⟨_, _, [], by rw [hpassed, ← List.append_assoc], hkey, ?_⟩
    rw [List.append_nil]
    exact hkept

end Session

/-! ## What was received -/

/-- What was received from one other device: the receiving chain of the session with it, the positions
that its receiving chains have gone past, and the messages that were read, in order. -/
structure Reception where
  chain : ChainName
  positions : List Position
  opened : List Bytes

namespace Reception

open Session (IsKeyOf)

variable {S : Suite} {config : Config} {now : UInt64} {r : Reception} {s after : Session}
  {payload plaintext : Bytes} {isHandshake : Bool}

/-- Nothing was received. -/
def empty : Reception := ⟨⟨none, 0⟩, [], []⟩

/-- The reception when a session is started with a one-time key of ours. -/
def answering (r : Reception) (oneTime : Bytes) : Reception := { r with chain := ⟨some oneTime, 0⟩ }

/-- The chain of a session after it has read a message. -/
def chainAfter (r : Reception) (s after : Session) : ChainName :=
  if after.theirRatchet = s.theirRatchet then r.chain
  else { r.chain with steps := r.chain.steps + 1 }

/-- The positions that a session goes past when it reads a message. -/
def gonePast (S : Suite) (r : Reception) (s after : Session) : List Position :=
  (s.passed S after).map fun p => ⟨r.chainAfter s after, p.1, p.2⟩

/-- The reception after a session has read a message. -/
def reading (S : Suite) (r : Reception) (s : Session) (payload : Bytes) (after : Session) :
    Reception where
  chain := r.chainAfter s after
  positions := r.positions ++ r.gonePast S s after
  opened := r.opened ++ [payload]

/-- The session, or one before it, was started with a one-time key of ours. -/
def StartedWith (r : Reception) (oneTime : Bytes) : Prop :=
  ∃ chain ∈ r.chain :: r.positions.map (·.chain), chain.oneTime = some oneTime

theorem not_startedWith_empty {oneTime : Bytes} : ¬ empty.StartedWith oneTime := by
  rintro ⟨chain, hchain, hsome⟩
  obtain rfl := List.mem_singleton.mp hchain
  exact nomatch hsome

theorem StartedWith.of_answering {oneTime other : Bytes}
    (h : (r.answering oneTime).StartedWith other) : other = oneTime ∨ r.StartedWith other := by
  obtain ⟨chain, hchain, hsome⟩ := h
  rcases List.mem_cons.mp hchain with rfl | hchain
  · exact .inl (Option.some.inj hsome).symm
  · exact .inr ⟨chain, List.mem_cons_of_mem _ hchain, hsome⟩

/-- Reading a message starts no session. -/
theorem StartedWith.of_reading {oneTime : Bytes}
    (h : (r.reading S s payload after).StartedWith oneTime) : r.StartedWith oneTime := by
  have hsame : (r.chainAfter s after).oneTime = r.chain.oneTime := by
    unfold chainAfter
    split <;> rfl
  have hchain (hsome : (r.chainAfter s after).oneTime = some oneTime) : r.StartedWith oneTime :=
    ⟨r.chain, List.mem_cons_self, hsame.symm.trans hsome⟩
  obtain ⟨chain, hmem, hsome⟩ := h
  rcases List.mem_cons.mp hmem with rfl | hmem
  · exact hchain hsome
  · obtain ⟨p, hp, rfl⟩ := List.mem_map.mp hmem
    rcases List.mem_append.mp hp with hp | hp
    · exact ⟨p.chain, List.mem_cons_of_mem _ (List.mem_map_of_mem hp), hsome⟩
    · obtain ⟨passed, -, rfl⟩ := List.mem_map.mp hp
      exact hchain hsome

/-- Every message that was read used up the key of a position, and the keys of other positions are
kept. -/
structure Spends (S : Suite) (r : Reception) (used kept : List Position) : Prop where
  noted : ∀ p ∈ used ++ kept, p ∈ r.positions
  nodup : ((used ++ kept).map (·.place)).Nodup
  opens : List.Forall₂ (fun payload p => IsKeyOf S p.key payload) r.opened used

/-- The reception accounts for the session: all positions of its chain that were gone past are before
its own, and the keys that it keeps are those of positions whose keys have not been used. -/
structure Tracks (S : Suite) (r : Reception) (s : Session) : Prop where
  behind : ∀ p ∈ r.positions, p.chain.oneTime = r.chain.oneTime →
    p.chain.steps < r.chain.steps ∨
      p.chain.steps = r.chain.steps ∧ p.index < s.receiveIndex.toNat
  spends : ∃ used kept, r.Spends S used kept ∧ kept.map (·.key) = s.skipped.map (·.key)

/-- The reception accounts for the stored session; without one, nothing was received. -/
def Follows (S : Suite) (r : Reception) : Option Session → Prop
  | none => r = empty
  | some s => r.Tracks S s

theorem Follows.exists_spends {stored : Option Session} (h : r.Follows S stored) :
    ∃ used, r.Spends S used [] := by
  cases stored with
  | none =>
    obtain rfl : r = empty := h
    exact ⟨[], nofun, List.nodup_nil, .nil⟩
  | some s =>
    obtain ⟨used, kept, hspends, -⟩ := h.spends
    refine ⟨used, fun p hp => ?_, ?_, hspends.opens⟩
    · rw [List.append_nil] at hp
      exact hspends.noted p (List.mem_append_left _ hp)
    · rw [List.append_nil]
      exact hspends.nodup.sublist ((List.sublist_append_left _ _).map _)

/-- A session that is started with a one-time key of ours is on a chain that was not there before, if
the key was not used before. -/
theorem Follows.answering {stored : Option Session} {oneTime : Bytes} (h : r.Follows S stored)
    (hnew : ¬ r.StartedWith oneTime) (hnone : s.skipped = []) :
    (r.answering oneTime).Tracks S s := by
  obtain ⟨used, hspends⟩ := h.exists_spends
  refine ⟨fun p hp hchain => absurd ⟨p.chain, List.mem_cons_of_mem _ (List.mem_map_of_mem hp),
      hchain⟩ hnew, used, [], ⟨hspends.noted, hspends.nodup, hspends.opens⟩, ?_⟩
  rw [hnone]
  rfl

/-- Only what a session receives is accounted for. -/
theorem Tracks.of_frame (h : r.Tracks S s) (hindex : after.receiveIndex = s.receiveIndex)
    (hskipped : after.skipped = s.skipped) : r.Tracks S after := by
  obtain ⟨used, kept, hspends, hkeys⟩ := h.spends
  refine ⟨fun p hp hchain => ?_, used, kept, hspends, by rw [hskipped]; exact hkeys⟩
  rw [hindex]
  exact h.behind p hp hchain

/-- A session that has kept no keys starts its account. -/
theorem Tracks.empty (hnone : s.skipped = []) : empty.Tracks S s :=
  ⟨nofun, [], [], ⟨nofun, List.nodup_nil, .nil⟩, by rw [hnone]; rfl⟩

/-- The chain of a position that was gone past has not taken more steps. -/
theorem Tracks.steps_le (h : r.Tracks S s) {p : Position} (hp : p ∈ r.positions)
    (hchain : p.chain.oneTime = r.chain.oneTime) : p.chain.steps ≤ r.chain.steps :=
  (h.behind p hp hchain).elim Nat.le_of_lt fun heq => Nat.le_of_eq heq.1

/-- The positions that a message goes past were not gone past before. -/
theorem Tracks.place_ne (h : r.Tracks S s) {p q : Position} (hp : p ∈ r.positions)
    (hq : q ∈ r.gonePast S s after) : p.place ≠ q.place := by
  intro hsame
  obtain ⟨passed, hpassed, rfl⟩ := List.mem_map.mp hq
  obtain ⟨hchain, hindex⟩ := Prod.mk.inj hsame
  obtain ⟨-, hlow⟩ := (Session.passed_bounds S s after).2 passed hpassed
  replace hchain : p.chain = r.chainAfter s after := hchain
  replace hindex : p.index = passed.1 := hindex
  by_cases hstep : after.theirRatchet = s.theirRatchet
  · rw [chainAfter, if_pos hstep] at hchain
    rcases h.behind p hp (congrArg _ hchain) with hlt | ⟨-, hlt⟩
    · exact absurd (congrArg ChainName.steps hchain) (Nat.ne_of_lt hlt)
    · have := hlow hstep
      omega
  · rw [chainAfter, if_neg hstep] at hchain
    have hle := h.steps_le hp (by rw [hchain])
    rw [hchain] at hle
    exact absurd hle (Nat.not_succ_le_self _)

/-- Reading a message keeps the account of the positions. -/
theorem Tracks.reading (h : r.Tracks S s)
    (hopen : s.openMessage S config now payload isHandshake = .ok (plaintext, after)) :
    (r.reading S s payload after).Tracks S after := by
  refine ⟨fun p hp hchain => ?_, ?_⟩
  · rcases List.mem_append.mp hp with hp | hp
    · show p.chain.steps < (r.chainAfter s after).steps ∨
        p.chain.steps = (r.chainAfter s after).steps ∧ _
      replace hchain : p.chain.oneTime = (r.chainAfter s after).oneTime := hchain
      by_cases hstep : after.theirRatchet = s.theirRatchet
      · rw [chainAfter, if_pos hstep] at hchain ⊢
        exact (h.behind p hp hchain).imp_right fun hlt => ⟨hlt.1,
          Nat.lt_of_lt_of_le hlt.2 (Session.receiveIndex_le_of_openMessage hopen hstep)⟩
      · rw [chainAfter, if_neg hstep] at hchain ⊢
        exact .inl (Nat.lt_succ_of_le (h.steps_le hp hchain))
    · obtain ⟨passed, hpassed, rfl⟩ := List.mem_map.mp hp
      exact .inr ⟨rfl, ((Session.passed_bounds S s after).2 passed hpassed).1⟩
  · obtain ⟨used, kept, hspends, hkeys⟩ := h.spends
    obtain ⟨before, key, behind, hall, hkey, hafter⟩ := Session.openMessage_uses hopen
    have hpassed : (r.gonePast S s after).map (·.key) = (s.passed S after).map (·.2) := by
      rw [gonePast, List.map_map]
      rfl
    rw [← hkeys, ← hpassed, ← List.map_append] at hall
    obtain ⟨earlier, rest, havailable, rfl, hrest⟩ := List.map_eq_append_iff.mp hall
    obtain ⟨p, later, rfl, rfl, rfl⟩ := List.map_eq_cons_iff.mp hrest
    rw [← List.map_append] at hafter
    obtain ⟨kept', hkept', hkeys'⟩ := List.sublist_map_iff.mp hafter
    -- The positions used and kept are among those before and those gone past, each there once.
    have hnodup : ((used ++ (earlier ++ p :: later)).map (·.place)).Nodup := by
      rw [← havailable, ← List.append_assoc, List.map_append, List.nodup_append]
      refine ⟨hspends.nodup, ?_, ?_⟩
      · rw [gonePast, List.map_map]
        refine List.Nodup.of_map Prod.snd ?_
        rw [List.map_map]
        exact (Session.passed_bounds S s after).1
      · intro place hplace place' hplace'
        obtain ⟨q, hq, rfl⟩ := List.mem_map.mp hplace
        obtain ⟨q', hq', rfl⟩ := List.mem_map.mp hplace'
        exact h.place_ne (hspends.noted q hq) hq'
    have hperm : (used ++ (earlier ++ p :: later)).Perm ((used ++ [p]) ++ (earlier ++ later)) := by
      rw [List.append_assoc]
      exact List.perm_middle.append_left used
    have hsub : ((used ++ [p]) ++ kept').Sublist ((used ++ [p]) ++ (earlier ++ later)) :=
      hkept'.append_left _
    refine ⟨used ++ [p], kept', ⟨fun q hq => ?_, ?_, ?_⟩, hkeys'.symm⟩
    · have hq := hperm.mem_iff.mpr (hsub.mem hq)
      rw [← havailable, ← List.append_assoc] at hq
      exact List.mem_append.mpr ((List.mem_append.mp hq).imp_left (hspends.noted q))
    · exact ((hperm.map _).nodup_iff.mp hnodup).sublist (hsub.map _)
    · exact List.rel_append hspends.opens (.cons hkey .nil)

/-- The message keys of different positions differ. -/
def KeysDistinct (r : Reception) : Prop :=
  ∀ p ∈ r.positions, ∀ q ∈ r.positions, p.key = q.key → p.place = q.place

/-- No message that was read has the authenticator of two keys. -/
def TagsDistinct (S : Suite) (r : Reception) : Prop :=
  ∀ payload ∈ r.opened, ∀ p ∈ r.positions, ∀ q ∈ r.positions,
    IsKeyOf S p.key payload → IsKeyOf S q.key payload → p.key = q.key

instance : Decidable r.KeysDistinct :=
  inferInstanceAs
    (Decidable (∀ p ∈ r.positions, ∀ q ∈ r.positions, p.key = q.key → p.place = q.place))

instance : Decidable (r.TagsDistinct S) :=
  inferInstanceAs (Decidable (∀ payload ∈ r.opened, ∀ p ∈ r.positions, ∀ q ∈ r.positions, _))

/-- No message is read twice. -/
theorem Spends.nodup_opened {used : List Position} (h : r.Spends S used []) (hkeys : r.KeysDistinct)
    (htags : r.TagsDistinct S) : r.opened.Nodup := by
  have hplaces : used.Pairwise (·.place ≠ ·.place) :=
    List.pairwise_map.mp (h.nodup.sublist ((List.sublist_append_left _ _).map _))
  have hnoted {p : Position} (hp : p ∈ used) := h.noted p (List.mem_append_left _ hp)
  refine List.pairwise_iff_getElem.mpr fun i j hi hj hlt hsame => ?_
  have hi' := h.opens.length_eq ▸ hi
  have hj' := h.opens.length_eq ▸ hj
  -- Both times the message has the authenticator of the key that it used up.
  have hopens : IsKeyOf S used[j].key r.opened[i] := hsame ▸ h.opens.get hj hj'
  refine List.pairwise_iff_getElem.mp hplaces i j hi' hj' hlt ?_
  exact hkeys _ (hnoted (List.getElem_mem _)) _ (hnoted (List.getElem_mem _))
    (htags _ (List.getElem_mem hi) _ (hnoted (List.getElem_mem _)) _ (hnoted (List.getElem_mem _))
      (h.opens.get hi hi') hopens)

/-- No message is read twice, as far as the session accounts for what was received. -/
theorem Follows.nodup_opened {stored : Option Session} (hfollows : r.Follows S stored)
    (hkeys : r.KeysDistinct) (htags : r.TagsDistinct S) : r.opened.Nodup := by
  obtain ⟨used, h⟩ := hfollows.exists_spends
  exact h.nodup_opened hkeys htags

/-- A message that was read has the authenticator of a position that was gone past. -/
theorem Spends.exists_position {used kept : List Position} (h : r.Spends S used kept)
    (hread : payload ∈ r.opened) : ∃ p ∈ r.positions, IsKeyOf S p.key payload := by
  obtain ⟨i, hi, rfl⟩ := List.getElem_of_mem hread
  have hi' := h.opens.length_eq ▸ hi
  exact ⟨used[i], h.noted _ (List.mem_append_left _ (List.getElem_mem hi')), h.opens.get hi hi'⟩

end Reception

end EndToEnd

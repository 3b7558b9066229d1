import EndToEnd.Proofs.Primitive.Plain
import EndToEnd.Proofs.Session.Letters
import Mathlib.Data.List.Induction
import Mathlib.Data.List.Nodup

/-!
# One chain in any order

The letters that a session seals on one chain may arrive in any order and more than once. The
receiver's position is behind the highest one that has arrived, and it keeps the keys of those in
between that have not. So a letter is read the first time it arrives, from its kept key or at its
place in the chain, and never again.

This is as long as no letter is too far ahead and no kept key is dropped, for its age or because
there are too many, and no letter's authenticator is that of another key.

Main statements:

- `sealEach_inTransit`: letters that are sealed on one chain are at consecutive positions of it;
- `Caught.arrives`: what one arrival does;
- `Arriving.caught_take`: what the receiver keeps after any number of arrivals;
- `arrivals_any_order`: every letter is read once, and what the receiver keeps.
-/

namespace EndToEnd

/-! ## Positions -/

/-- The position behind all those that have arrived, from a position on. -/
def past (low : Nat) (arrived : List Nat) : Nat := arrived.foldl (fun high i => max high (i + 1)) low

/-- The positions passed over: those from a position on that have not arrived, in order. -/
def passedOver (low : Nat) (arrived : List Nat) : List Nat :=
  (List.range' low (past low arrived - low)).filter (· ∉ arrived)

section Positions

variable {low i j : Nat} {arrived : List Nat}

@[simp] theorem passedOver_nil : passedOver low [] = [] := by simp [passedOver, past]

/-- The next arrival moves the position up to behind itself, or not at all. -/
theorem past_concat : past low (arrived ++ [i]) = max (past low arrived) (i + 1) := by
  simp only [past, List.foldl_append, List.foldl_cons, List.foldl_nil]

/-- The position never falls behind where it began. -/
theorem le_past : low ≤ past low arrived := by
  induction arrived using List.reverseRecOn with
  | nil => exact Nat.le_refl low
  | append_singleton arrived i ih =>
    rw [past_concat]
    exact Nat.le_trans ih (Nat.le_max_left _ _)

/-- All that has arrived is in front of the position. -/
theorem lt_past_of_mem (h : i ∈ arrived) : i < past low arrived := by
  induction arrived using List.reverseRecOn with
  | nil => exact nomatch h
  | append_singleton arrived j ih =>
    rw [past_concat]
    rcases List.mem_append.mp h with h | h
    · exact Nat.lt_of_lt_of_le (ih h) (Nat.le_max_left _ _)
    · obtain rfl := List.mem_singleton.mp h
      exact Nat.lt_of_lt_of_le (Nat.lt_succ_self i) (Nat.le_max_right _ _)

/-- Nothing is passed beyond what has arrived. -/
theorem past_le {high : Nat} (hlow : low ≤ high) (h : ∀ i ∈ arrived, i < high) :
    past low arrived ≤ high := by
  induction arrived using List.reverseRecOn with
  | nil => exact hlow
  | append_singleton arrived i ih =>
    rw [past_concat]
    exact Nat.max_le.mpr ⟨ih fun j hj => h j (List.mem_append_left _ hj),
      h i (List.mem_append_right _ List.mem_cons_self)⟩

/-- A position is passed over if it lies in between and has not arrived. -/
theorem mem_passedOver :
    j ∈ passedOver low arrived ↔ low ≤ j ∧ j < past low arrived ∧ j ∉ arrived := by
  rw [passedOver, List.mem_filter, List.mem_range'_1, decide_eq_true_eq,
    Nat.add_sub_cancel' le_past, and_assoc]

/-- What is passed over does not depend on the order. -/
theorem passedOver_congr {arrived' : List Nat} (h : ∀ i, i ∈ arrived ↔ i ∈ arrived') :
    passedOver low arrived = passedOver low arrived' := by
  have hpast : past low arrived = past low arrived' :=
    Nat.le_antisymm (past_le le_past fun i hi => lt_past_of_mem ((h i).mp hi))
      (past_le le_past fun i hi => lt_past_of_mem ((h i).mpr hi))
  unfold passedOver
  rw [hpast]
  refine List.filter_congr fun i _ => ?_
  rw [decide_eq_decide, h]

/-- A position arrives once more. -/
theorem passedOver_of_mem (h : i ∈ arrived) :
    past low (arrived ++ [i]) = past low arrived ∧
      passedOver low (arrived ++ [i]) = passedOver low arrived := by
  have hpast : past low (arrived ++ [i]) = past low arrived := by
    rw [past_concat]
    exact Nat.max_eq_left (lt_past_of_mem h)
  refine ⟨hpast, ?_⟩
  unfold passedOver
  rw [hpast]
  refine List.filter_congr fun j _ => ?_
  rw [decide_eq_decide, List.mem_append, List.mem_singleton, not_or]
  exact ⟨And.left, fun hj => ⟨hj, fun heq => hj (heq ▸ h)⟩⟩

/-- A position that was passed over arrives. -/
theorem passedOver_of_lt (hlow : low ≤ i) (hlt : i < past low arrived) (hnew : i ∉ arrived) :
    past low (arrived ++ [i]) = past low arrived ∧
      ∃ before behind, passedOver low arrived = before ++ i :: behind ∧ i ∉ before ∧
        passedOver low (arrived ++ [i]) = before ++ behind := by
  have hpast : past low (arrived ++ [i]) = past low arrived := by
    rw [past_concat]
    exact Nat.max_eq_left hlt
  obtain ⟨before, behind, hsplit⟩ := List.append_of_mem (mem_passedOver.mpr ⟨hlow, hlt, hnew⟩)
  have hnodup : (passedOver low arrived).Nodup := .filter _ List.nodup_range'
  rw [hsplit, List.nodup_append] at hnodup
  obtain ⟨-, hbehind, hbefore⟩ := hnodup
  have hnotBefore : i ∉ before := fun h => hbefore i h i List.mem_cons_self rfl
  have hnotBehind : i ∉ behind := (List.nodup_cons.mp hbehind).1
  refine ⟨hpast, before, behind, hsplit, hnotBefore, ?_⟩
  have hfilter : passedOver low (arrived ++ [i]) = (passedOver low arrived).filter (· ≠ i) := by
    unfold passedOver
    rw [hpast, List.filter_filter]
    refine List.filter_congr fun j _ => ?_
    rw [← Bool.decide_and, decide_eq_decide, List.mem_append, List.mem_singleton, not_or, and_comm]
  have hkeep {is : List Nat} (h : i ∉ is) : is.filter (· ≠ i) = is :=
    List.filter_eq_self.mpr fun j hj => decide_eq_true fun heq => h (heq ▸ hj)
  rw [hfilter, hsplit, List.filter_append, List.filter_cons_of_neg (by simp), hkeep hnotBefore,
    hkeep hnotBehind]

/-- A position arrives that is ahead of all others. -/
theorem passedOver_of_le (hle : past low arrived ≤ i) :
    past low (arrived ++ [i]) = i + 1 ∧
      passedOver low (arrived ++ [i]) =
        passedOver low arrived ++ List.range' (past low arrived) (i - past low arrived) := by
  have hpast : past low (arrived ++ [i]) = i + 1 := by
    rw [past_concat]
    exact Nat.max_eq_right (Nat.le_succ_of_le hle)
  have hlow : low ≤ past low arrived := le_past
  refine ⟨hpast, ?_⟩
  have hranges : List.range' low (i + 1 - low) = List.range' low (past low arrived - low) ++
      (List.range' (past low arrived) (i - past low arrived) ++ [i]) := by
    have hlast : List.range' (past low arrived) (i - past low arrived + 1) =
        List.range' (past low arrived) (i - past low arrived) ++ [i] := by
      rw [List.range'_concat, Nat.one_mul, Nat.add_sub_cancel' hle]
    have hfirst := List.range'_append_1 (s := low) (m := past low arrived - low)
      (n := i - past low arrived + 1)
    rw [Nat.add_sub_cancel' hlow, hlast] at hfirst
    rw [hfirst]
    congr 1
    omega
  unfold passedOver
  rw [hpast, hranges, List.filter_append, List.filter_append]
  congr 1
  · refine List.filter_congr fun j hj => ?_
    have hj := List.mem_range'_1.mp hj
    rw [decide_eq_decide, List.mem_append, List.mem_singleton]
    exact not_congr (or_iff_left (by omega))
  · rw [List.filter_cons_of_neg (by simp), List.filter_nil, List.append_nil, List.filter_eq_self]
    intro j hj
    have hj := List.mem_range'_1.mp hj
    rw [decide_eq_true_eq, List.mem_append, List.mem_singleton]
    rintro (h | h)
    · have : j < past low arrived := lt_past_of_mem h
      omega
    · omega

/-- What one more position passes over. -/
theorem length_passedOver_concat (hlow : low ≤ i) :
    (passedOver low (arrived ++ [i])).length ≤
      (passedOver low arrived).length + (i - past low arrived) := by
  by_cases hseen : i ∈ arrived
  · rw [(passedOver_of_mem hseen).2]
    exact Nat.le_add_right _ _
  rcases Nat.lt_or_ge i (past low arrived) with hlt | hge
  · obtain ⟨-, before, behind, hover, -, hover'⟩ := passedOver_of_lt hlow hlt hseen
    rw [hover, hover', List.length_append, List.length_append, List.length_cons]
    omega
  · refine Nat.le_of_eq ?_
    rw [(passedOver_of_le hge).2, List.length_append, List.length_range']

end Positions

namespace Session

variable {S : Suite} {config config' : Config} {now : UInt64} {env : Environment}
  {s sender receiver ready mid after : Session} {pair : KeyPair} {ratchetKey chain : Key}
  {isHandshake : Bool} {low high : Nat} {l : Letter} {letters : List Letter} {arrived : List Nat}

/-! ## Sealing one letter after the other -/

/-- What a session does while it seals letters on one chain: it may read in between. -/
inductive Turn
  | seals (plaintext : Bytes)
  | reads (now : UInt64) (payload : Bytes) (isHandshake : Bool)

/-- The letters that a session seals one after the other on one chain. A message that it reads under
a new ratchet key ends them: the next letter would be on another chain. -/
def sealEach (S : Suite) (config : Config) (isHandshake : Bool) :
    List Turn → Session → Environment → Except SessionError (List Letter)
  | [], _, _ => .ok []
  | .seals plaintext :: rest, s, env => do
    let ready ← (s.readied S env).1
    let (payload, after) ← (s.sealMessage S plaintext env).1
    let letters ← sealEach S config isHandshake rest after (s.sealMessage S plaintext env).2
    match ready.sendChain with
    | none => .error .noSendChain
    | some chain =>
      return ⟨ready.sendIndex, isHandshake, messageKey S chain, plaintext, payload⟩ :: letters
  | .reads now payload isHandshake' :: rest, s, env =>
    match s.openMessage S config now payload isHandshake' with
    | .error _ => sealEach S config isHandshake rest s env
    | .ok (_, after) =>
      if after.theirRatchet = s.theirRatchet then sealEach S config isHandshake rest after env
      else .ok []

/-- A message that takes no step changes nothing that sending needs. -/
theorem openMessage_frame_of_theirRatchet {payload plaintext : Bytes} {isHandshake : Bool}
    (h : s.openMessage S config now payload isHandshake = .ok (plaintext, after))
    (hsame : after.theirRatchet = s.theirRatchet) :
    after = { s with
      receiveChain := after.receiveChain
      receiveIndex := after.receiveIndex
      skipped := after.skipped } := by
  rcases openMessage_changes h with ⟨_, -, rfl⟩ | ⟨_, _, _, -, -, rfl⟩ |
    ⟨_, _, _, _, _, _, hother, -, -, rfl⟩
  · rfl
  · rfl
  · exact absurd hsame.symm hother

/-- Readying does not depend on what receiving needs. -/
theorem readied_frame (h : (s.readied S env).1 = .ok ready) (receiveChain : Option Key)
    (receiveIndex : UInt32) (skipped : List SkippedKey) :
    (({ s with receiveChain, receiveIndex, skipped } : Session).readied S env).1 =
      .ok { ready with receiveChain, receiveIndex, skipped } := by
  refine readied_eq_ok.mpr ?_
  rcases readied_eq_ok.mp h with ⟨hnone, rfl⟩ | ⟨their, shared, hdue, hshared, rfl⟩
  · exact .inl ⟨hnone, rfl⟩
  · exact .inr ⟨their, shared, hdue, hshared, rfl⟩

/-- Letters sealed one after the other are at consecutive positions of one chain. -/
theorem sealEach_inTransit {turns : List Turn}
    (h : sealEach S config isHandshake turns s env = .ok letters)
    (hready : (s.readied S env).1 = .ok ready) (hsends : Sends S ready pair chain) :
    (∀ l ∈ letters, l.isHandshake = isHandshake) ∧
      InTransit .complete S pair.publicKey chain ready.sendIndex.toNat
        (ready.sendIndex.toNat + letters.length) letters := by
  induction turns generalizing s env ready letters with
  | nil =>
    obtain rfl := Except.ok.inj h
    exact ⟨nofun, rfl⟩
  | cons turn rest ih =>
    cases turn with
    | seals plaintext =>
      obtain ⟨ready', hready', h⟩ := bind_eq_ok.mp h
      obtain rfl := Except.ok.inj (hready.symm.trans hready')
      obtain ⟨⟨payload, after⟩, hsealed, h⟩ := bind_eq_ok.mp h
      obtain ⟨others, hothers, h⟩ := bind_eq_ok.mp h
      rw [hsends.sendChain] at h
      obtain rfl := Except.ok.inj h
      rw [sealMessage_eq] at hsealed
      obtain ⟨ready', hready', hnext⟩ := bind_eq_ok.mp hsealed
      obtain rfl := Except.ok.inj (hready.symm.trans hready')
      obtain ⟨hl, hafter, hindex, -⟩ := hsends.letter (by rw [hsends.sendChain]; rfl) hnext
        isHandshake
      -- No step is due any more, so the next letter goes on the same chain.
      have hdue : after.sendStepDue = none :=
        sendStepDue_sealNext (sendStepDue_readied hready) hnext
      obtain ⟨hflags, hrest⟩ := ih hothers (readied_eq_ok.mpr (.inl ⟨hdue, rfl⟩)) hafter
      refine ⟨List.forall_mem_cons.mpr ⟨rfl, hflags⟩, hl, rfl, ?_⟩
      rw [hindex, Nat.add_right_comm] at hrest
      rw [List.length_cons, ← Nat.add_assoc]
      exact hrest
    | reads now payload isHandshake' =>
      rw [sealEach] at h
      split at h
      next => exact ih h hready hsends
      next text after hopened =>
        split at h
        next hsame =>
          have hready' := readied_frame hready after.receiveChain after.receiveIndex after.skipped
          rw [← openMessage_frame_of_theirRatchet hopened hsame] at hready'
          have hrest := ih h hready' ⟨hsends.ratchet, hsends.sendChain⟩
          exact hrest
        next =>
          obtain rfl := Except.ok.inj h
          exact ⟨nofun, rfl⟩

/-! ## Arrivals -/

/-- A letter arrives. -/
structure Arrival where
  now : UInt64
  letter : Letter

namespace Arrival

/-- The position that the letter was sealed at. -/
def position (a : Arrival) : Nat := a.letter.index.toNat

/-- What the receiver makes of the letter. -/
def opened (S : Suite) (config : Config) (s : Session) (a : Arrival) :
    Except SessionError (Bytes × Session) :=
  s.openMessage S config a.now a.letter.payload a.letter.isHandshake

end Arrival

/-- The receiver after a letter has arrived: a refusal leaves it as it was. -/
def arrive (S : Suite) (config : Config) (s : Session) (a : Arrival) : Session :=
  match a.opened S config s with
  | .ok (_, after) => after
  | .error _ => s

/-- The receiver after letters have arrived. -/
def arriveAll (S : Suite) (config : Config) (s : Session) (as : List Arrival) : Session :=
  as.foldl (arrive S config) s

/-- The receiver is on the chain that the sender's next letter is sealed on, or reaches it by its
next step, at a position from which it has sealed nothing yet, or less. -/
def Faces (S : Suite) (sender : Session) (env : Environment) (receiver : Session)
    (isHandshake : Bool) (chain : Key) (low first : Nat) : Prop :=
  ∃ ready pair mid, (sender.readied S env).1 = .ok ready ∧ Sends S ready pair chain ∧
    receiver.reached S pair.publicKey.bytes isHandshake = .ok mid ∧
    Receives S mid pair.publicKey chain ∧
    mid.receiveIndex.toNat = low ∧ ready.sendIndex.toNat = first ∧ low ≤ first

/-- No arrival is too far ahead, and no key that the receiver keeps is dropped, for its age or
because there are too many. -/
def WithinLimits (S : Suite) (config : Config) (receiver : Session) (low : Nat)
    (arrivals : List Arrival) : Prop :=
  receiver.skipped.length ≤ config.maxSkippedKeys ∧
  ∀ n < arrivals.length, ∀ a ∈ arrivals[n]?,
    a.position ≤ past low ((arrivals.take n).map (·.position)) + config.maxSkip ∧
    (∀ k ∈ (receiver.arriveAll S config (arrivals.take n)).skipped,
      k.isFresh a.now config.maxAge = true) ∧
    receiver.skipped.length +
        (passedOver low ((arrivals.take n).map (·.position) ++ [a.position])).length ≤
      config.maxSkippedKeys

/-- The authenticator of a letter is that of no key that the receiver has kept, and of no other
position of the chain, from `low` to below `high`. -/
def Distinguished (S : Suite) (receiver : Session) (chain : Key) (low high : Nat) (l : Letter) :
    Prop :=
  ∀ parts, Wire.splitMac l.payload = .ok parts →
    (∀ k ∈ receiver.skipped, k.opens S parts.1 parts.2.bytes = false) ∧
    ∀ j < high, low ≤ j → j ≠ l.index.toNat →
      (MessageKeys.ofKey S (messageKeyAt S chain j)).verifies S parts.1 parts.2.bytes = false

instance {arrivals : List Arrival} : Decidable (WithinLimits S config receiver low arrivals) :=
  inferInstanceAs (Decidable (_ ∧ _))

instance : Decidable (Distinguished S receiver chain low high l) :=
  inferInstanceAs (Decidable (∀ parts, Wire.splitMac l.payload = .ok parts → _))

/-- The receiver reads a letter that has not arrived before. It refuses one that has, and nothing
changes. -/
def ReadsOnce (S : Suite) (config : Config) (arrived : List Nat) (a : Arrival) (s : Session) :
    Prop :=
  (a.position ∉ arrived → ∃ after, a.opened S config s = .ok (a.letter.plaintext, after)) ∧
    (a.position ∈ arrived →
      (∃ cause, a.opened S config s = .error cause) ∧ s.arrive S config a = s)

/-! ## What the receiver keeps -/

/-- The receiver when the letters at some positions have arrived: it is behind the highest of them,
and has kept the keys of those that it passed over. -/
structure Caught (S : Suite) (receiver : Session) (ratchetKey chain : Key) (isHandshake : Bool)
    (low : Nat) (arrived : List Nat) (s : Session) : Prop where
  reaches : ∃ mid, s.reached S ratchetKey.bytes isHandshake = .ok mid ∧
    Receives S mid ratchetKey chain ∧ mid.receiveIndex.toNat = past low arrived
  onChain : arrived ≠ [] → s.theirRatchet = some ratchetKey
  kept : ∃ added, s.skipped = receiver.skipped ++ added ∧
    added.map (·.key) = (passedOver low arrived).map (messageKeyAt S chain)

/-- A receiver that is on the chain or reaches it has caught up with nothing. -/
theorem Caught.start (hreached : receiver.reached S ratchetKey.bytes isHandshake = .ok mid)
    (hreceives : Receives S mid ratchetKey chain) (hindex : mid.receiveIndex.toNat = low) :
    Caught S receiver ratchetKey chain isHandshake low [] receiver := by
  refine ⟨⟨mid, hreached, hreceives, hindex⟩, fun hsome => absurd rfl hsome, [], ?_, ?_⟩
  · rw [List.append_nil]
  · rw [passedOver_nil]
    rfl

namespace Caught

variable (h : Caught S receiver ratchetKey chain isHandshake low arrived s)
include h

/-- Beside the keys that it kept before, the receiver has one for each position passed over. -/
theorem length_skipped :
    s.skipped.length = receiver.skipped.length + (passedOver low arrived).length := by
  obtain ⟨added, hskipped, hkeys⟩ := h.kept
  have hlength := congrArg List.length hkeys
  rw [List.length_map, List.length_map] at hlength
  rw [hskipped, List.length_append, hlength]

/-- Once a letter has arrived, the receiver is on the chain. -/
theorem receiveIndex (hsome : arrived ≠ []) :
    Receives S s ratchetKey chain ∧ s.receiveIndex.toNat = past low arrived := by
  obtain ⟨mid, hmid, hreceives, hindex⟩ := h.reaches
  rcases reached_eq_ok.mp hmid with ⟨-, rfl⟩ | ⟨-, hother, -⟩
  · exact ⟨hreceives, hindex⟩
  · exact absurd (h.onChain hsome) hother

/-- Once a letter has arrived, sealing does not disturb what receiving has reached. -/
theorem of_frame (hsome : arrived ≠ []) (hratchet : after.theirRatchet = s.theirRatchet)
    (hchain : after.receiveChain = s.receiveChain) (hindex : after.receiveIndex = s.receiveIndex)
    (hskipped : after.skipped = s.skipped) :
    Caught S receiver ratchetKey chain isHandshake low arrived after := by
  obtain ⟨hreceives, hpast⟩ := h.receiveIndex hsome
  have hknown : after.theirRatchet = some ratchetKey := hratchet.trans hreceives.theirRatchet
  refine ⟨⟨after, reached_eq_ok.mpr (.inl ⟨.inr hknown, rfl⟩), ⟨hknown, ?_⟩, ?_⟩, fun _ => hknown,
    hskipped ▸ h.kept⟩
  · rw [hchain, hindex]
    exact hreceives.receiveChain
  · rw [hindex]
    exact hpast

/-- A kept key opens a letter only if the letter was passed over. -/
theorem opens_false {body : Bytes} {mac : Mac} (hown : Distinguished S receiver chain low high l)
    (hsplit : Wire.splitMac l.payload = .ok (body, mac)) (hhigh : past low arrived ≤ high)
    (hnot : l.index.toNat ∉ passedOver low arrived) :
    ∀ k ∈ s.skipped, k.opens S body mac.bytes = false := by
  intro k hk
  obtain ⟨hearlier, hchain⟩ := hown (body, mac) hsplit
  obtain ⟨added, hskipped, hkeys⟩ := h.kept
  rw [hskipped] at hk
  rcases List.mem_append.mp hk with hk | hk
  · exact hearlier k hk
  · have hkey : k.key ∈ (passedOver low arrived).map (messageKeyAt S chain) :=
      hkeys ▸ List.mem_map_of_mem hk
    obtain ⟨j, hj, hkey⟩ := List.mem_map.mp hkey
    obtain ⟨hle, hlt, -⟩ := mem_passedOver.mp hj
    rw [SkippedKey.opens, ← hkey]
    exact hchain j (Nat.lt_of_lt_of_le hlt hhigh) hle fun heq => hnot (heq ▸ hj)

/-- A letter that has arrived before is refused. -/
theorem again (config : Config) (now : UInt64) (hl : l.IsSealed S ratchetKey chain)
    (hflag : l.isHandshake = isHandshake) (hseen : l.index.toNat ∈ arrived)
    (hown : Distinguished S receiver chain low high l) (hhigh : past low arrived ≤ high) :
    ∃ cause, s.openMessage S config now l.payload l.isHandshake = .error cause := by
  obtain ⟨body, mac, hsplit, hdecode, -⟩ := hl.parts
  cases hopen : s.openMessage S config now l.payload l.isHandshake with
  | error cause => exact ⟨cause, rfl⟩
  | ok opened =>
    obtain ⟨plaintext, after⟩ := opened
    obtain ⟨body', mac', m, hsplit', hdecode', hopened⟩ := openMessage_eq_ok.mp hopen
    obtain ⟨rfl, rfl⟩ := Prod.mk.inj (Except.ok.inj (hsplit.symm.trans hsplit'))
    obtain rfl := Except.ok.inj (hdecode.symm.trans hdecode')
    rcases hopened with hskipped | ⟨-, mid', advanced, hmid', honChain, -⟩
    · obtain ⟨before, k, behind, hkept, -, hopens, -⟩ := openSkipped_eq_some_iff.mp hskipped
      have hk : k ∈ s.skipped := (prune_sublist config now s).mem
        (hkept ▸ List.mem_append_right _ List.mem_cons_self)
      have hfalse := h.opens_false hown hsplit hhigh (fun hin => (mem_passedOver.mp hin).2.2 hseen)
        k hk
      exact nomatch hopens.symm.trans hfalse
    · obtain ⟨mid, hmid, -, hindex⟩ := h.reaches
      rw [hflag] at hmid'
      obtain rfl := Except.ok.inj ((reached_skipped (s.prune config now).skipped hmid).symm.trans
        hmid')
      obtain ⟨first, next, -, hle, -⟩ := openOnChain_eq_ok.mp honChain
      have hlt : l.index.toNat < past low arrived := lt_past_of_mem hseen
      rw [← hindex] at hlt
      exact absurd hle (Nat.not_le.mpr hlt)

/-- A letter that was passed over is opened with the key that was kept for it. -/
theorem late (hcipher : S.CipherUndoes) (hl : l.IsSealed S ratchetKey chain)
    (hlow : low ≤ l.index.toNat) (hlt : l.index.toNat < past low arrived)
    (hnew : l.index.toNat ∉ arrived) (hpruned : s.prune config now = s)
    (hown : Distinguished S receiver chain low high l) (hhigh : past low arrived ≤ high) :
    ∃ after, s.openMessage S config now l.payload l.isHandshake = .ok (l.plaintext, after) ∧
      Caught S receiver ratchetKey chain isHandshake low (arrived ++ [l.index.toNat]) after := by
  obtain ⟨body, mac, hsplit, hdecode, hverifies⟩ := hl.parts
  obtain ⟨hearlier, hchain⟩ := hown (body, mac) hsplit
  obtain ⟨hpast, before, behind, hover, hnotBefore, hover'⟩ := passedOver_of_lt hlow hlt hnew
  obtain ⟨added, hskipped, hkeys⟩ := h.kept
  rw [hover, List.map_append, List.map_cons] at hkeys
  obtain ⟨earlier, rest, rfl, hearlierKeys, hrest⟩ := List.map_eq_append_iff.mp hkeys
  obtain ⟨k, later, rfl, hkey, hlaterKeys⟩ := List.map_eq_cons_iff.mp hrest
  have hopens : k.opens S body mac.bytes = true := by
    rw [SkippedKey.opens, hkey, ← hl.key]
    exact hverifies
  -- no key is tried before this one that would open the letter too
  have hothers : ∀ other ∈ receiver.skipped ++ earlier, other.opens S body mac.bytes = false := by
    intro other hother
    rcases List.mem_append.mp hother with hother | hother
    · exact hearlier other hother
    · have hkey' : other.key ∈ before.map (messageKeyAt S chain) :=
        hearlierKeys ▸ List.mem_map_of_mem hother
      obtain ⟨j, hj, hkey'⟩ := List.mem_map.mp hkey'
      obtain ⟨hle, hlt', -⟩ := mem_passedOver.mp (hover ▸ List.mem_append_left _ hj)
      rw [SkippedKey.opens, ← hkey']
      exact hchain j (Nat.lt_of_lt_of_le hlt' hhigh) hle fun heq => hnotBefore (heq ▸ hj)
  have hplain : (MessageKeys.ofKey S k.key).decrypt S (l.message S ratchetKey).ciphertext =
      .ok l.plaintext := by
    rw [hkey, ← hl.key]
    exact Suite.decryptWith_encryptWith hcipher _ _ _
  refine ⟨{ s with skipped := (receiver.skipped ++ earlier) ++ later }, openMessage_eq_ok.mpr
    ⟨body, mac, _, hsplit, hdecode, .inl ?_⟩, ?_, fun _ => ?_, ?_⟩
  · rw [hpruned]
    refine openSkipped_eq_some_iff.mpr ⟨_, k, later, ?_, hothers, hopens, hplain, rfl⟩
    rw [hskipped, List.append_assoc]
  · obtain ⟨mid, hmid, hreceives, hindex⟩ := h.reaches
    exact ⟨_, reached_skipped _ hmid, ⟨hreceives.theirRatchet, hreceives.receiveChain⟩,
      hindex.trans hpast.symm⟩
  · refine h.onChain fun hnil => ?_
    rw [hnil] at hlt
    exact absurd hlow (Nat.not_le.mpr hlt)
  · refine ⟨earlier ++ later, List.append_assoc _ _ _, ?_⟩
    rw [hover', List.map_append, List.map_append, hearlierKeys, hlaterKeys]

/-- A receiver that goes on along the chain to a letter, and keeps the keys of those that it passes
over, has caught up with that letter. -/
theorem advanced {mid : Session} (hmid : s.reached S ratchetKey.bytes isHandshake = .ok mid)
    (hreceives : Receives S mid ratchetKey chain)
    (hindex : mid.receiveIndex.toNat = past low arrived) {index next : UInt32}
    (hle : past low arrived ≤ index.toNat) (hnext : nextIndex index = .ok next)
    {passed : List SkippedKey} (hpassed : passed.map (·.key) =
      (List.range' (past low arrived) (index.toNat - past low arrived)).map (messageKeyAt S chain)) :
    Caught S receiver ratchetKey chain isHandshake low (arrived ++ [index.toNat])
      (mid.advanced S (chainKeyAt S (chainKeyAt S chain mid.receiveIndex.toNat) (mid.ahead index))
        next (mid.skipped ++ passed)) := by
  obtain ⟨hpast, hover⟩ := passedOver_of_le hle
  have hreceives' := hreceives.advanced hreceives.receiveChain (hindex ▸ hle) hnext
    (mid.skipped ++ passed)
  refine ⟨⟨_, reached_eq_ok.mpr (.inl ⟨.inr hreceives'.theirRatchet, rfl⟩), hreceives', ?_⟩,
    fun _ => hreceives'.theirRatchet, ?_⟩
  · rw [hpast]
    exact nextIndex_eq_ok.mp hnext
  · obtain ⟨added, hskipped, hkeys⟩ := h.kept
    refine ⟨added ++ passed, ?_, ?_⟩
    · show mid.skipped ++ passed = _
      rw [reached_skipped_eq hmid, hskipped, List.append_assoc]
    · rw [List.map_append, hkeys, hpassed, hover, List.map_append]

/-- A letter that nothing has arrived behind is opened at its place in the chain. -/
theorem ahead (hcipher : S.CipherUndoes) (hl : l.IsSealed S ratchetKey chain)
    (hflag : l.isHandshake = isHandshake) (hle : past low arrived ≤ l.index.toNat)
    (hgap : l.index.toNat ≤ past low arrived + config.maxSkip)
    (hfresh : ∀ k ∈ s.skipped, k.isFresh now config.maxAge = true)
    (hpruned : s.prune config now = s)
    (hroom : receiver.skipped.length + (passedOver low (arrived ++ [l.index.toNat])).length ≤
      config.maxSkippedKeys)
    (hown : Distinguished S receiver chain low high l) (hhigh : past low arrived ≤ high) :
    ∃ after, s.openMessage S config now l.payload l.isHandshake = .ok (l.plaintext, after) ∧
      Caught S receiver ratchetKey chain isHandshake low (arrived ++ [l.index.toNat]) after := by
  obtain ⟨body, mac, hsplit, hdecode, hverifies⟩ := hl.parts
  obtain ⟨mid, hmid, hreceives, hindex⟩ := h.reaches
  obtain ⟨next, hnext⟩ := hl.notLast
  have hahead : mid.ahead l.index = l.index.toNat - past low arrived := by
    rw [Session.ahead, hindex]
  have hkeyAt (i : Nat) : messageKeyAt S (chainKeyAt S chain mid.receiveIndex.toNat) i =
      messageKeyAt S chain (past low arrived + i) := by
    rw [messageKeyAt, ← chainKeyAt_add, hindex, messageKeyAt]
  have hkey : messageKeyAt S (chainKeyAt S chain mid.receiveIndex.toNat) (mid.ahead l.index) =
      l.key := by
    rw [hkeyAt, hahead, Nat.add_sub_cancel' hle, hl.key]
  let passed := ((List.range (mid.ahead l.index)).map
    (messageKeyAt S (chainKeyAt S chain mid.receiveIndex.toNat))).map (SkippedKey.mk now)
  let after := mid.advanced S (chainKeyAt S (chainKeyAt S chain mid.receiveIndex.toNat)
    (mid.ahead l.index)) next (mid.skipped ++ passed)
  have hpassed : passed.map (·.key) = (List.range' (past low arrived)
      (l.index.toNat - past low arrived)).map (messageKeyAt S chain) := by
    rw [List.map_map, List.range'_eq_map_range, List.map_map, ← hahead]
    simp only [List.map_map]
    exact List.map_congr_left fun i _ => hkeyAt i
  have hcaught : Caught S receiver ratchetKey chain isHandshake low (arrived ++ [l.index.toNat])
      after :=
    h.advanced hmid hreceives hindex hle hnext hpassed
  -- the keys that are passed over are as young as can be, and there is room for them
  have hkept : after.prune config now = after := by
    refine prune_eq_self (fun k hk => ?_) (hcaught.length_skipped ▸ hroom)
    rcases List.mem_append.mp hk with hk | hk
    · exact hfresh k (reached_skipped_eq hmid ▸ hk)
    · obtain ⟨key, -, rfl⟩ := List.mem_map.mp hk
      simp only [SkippedKey.isFresh, Nat.sub_self, Nat.zero_le, decide_true]
  refine ⟨after, openMessage_eq_ok.mpr ⟨body, mac, _, hsplit, hdecode, .inr ⟨?_, mid, after, ?_, ?_,
    hkept.symm⟩⟩, hcaught⟩
  · rw [hpruned]
    refine openSkipped_eq_none.mpr (h.opens_false hown hsplit hhigh fun hin => ?_)
    exact absurd hle (Nat.not_le.mpr (mem_passedOver.mp hin).2.1)
  · rw [hpruned, hflag]
    exact hmid
  · refine openOnChain_eq_ok.mpr ⟨_, next, hreceives.receiveChain, hindex ▸ hle, ?_, ?_, ?_, hnext,
      rfl⟩
    · show mid.ahead l.index ≤ config.maxSkip
      rw [hahead]
      omega
    · show (MessageKeys.ofKey S (messageKeyAt S _ (mid.ahead l.index))).verifies S _ _ = true
      rw [hkey]
      exact hverifies
    · show (MessageKeys.ofKey S (messageKeyAt S _ (mid.ahead l.index))).decrypt S _ = _
      rw [hkey]
      exact Suite.decryptWith_encryptWith hcipher _ _ _

/-- A letter is read if it arrives for the first time and refused if it does not, and the receiver has
caught up with it. -/
theorem arrives {a : Arrival} (hcipher : S.CipherUndoes)
    (hl : a.letter.IsSealed S ratchetKey chain) (hflag : a.letter.isHandshake = isHandshake)
    (hlow : low ≤ a.position) (hgap : a.position ≤ past low arrived + config.maxSkip)
    (hfresh : ∀ k ∈ s.skipped, k.isFresh a.now config.maxAge = true)
    (hfull : s.skipped.length ≤ config.maxSkippedKeys)
    (hroom : receiver.skipped.length + (passedOver low (arrived ++ [a.position])).length ≤
      config.maxSkippedKeys)
    (hown : Distinguished S receiver chain low high a.letter) (hhigh : past low arrived ≤ high) :
    ReadsOnce S config arrived a s ∧
      Caught S receiver ratchetKey chain isHandshake low (arrived ++ [a.position])
        (s.arrive S config a) ∧
      (s.arrive S config a).skipped.length ≤ config.maxSkippedKeys := by
  by_cases hseen : a.position ∈ arrived
  · obtain ⟨cause, hrefused⟩ := h.again config a.now hl hflag hseen hown hhigh
    have hsame : s.arrive S config a = s := by rw [arrive, Arrival.opened, hrefused]
    obtain ⟨hpast, hover⟩ := passedOver_of_mem hseen
    rw [hsame]
    refine ⟨⟨fun hnew => absurd hseen hnew, fun _ => ⟨⟨cause, hrefused⟩, hsame⟩⟩, ?_, hfull⟩
    exact ⟨hpast.symm ▸ h.reaches, fun _ => h.onChain (List.ne_nil_of_mem hseen),
      hover.symm ▸ h.kept⟩
  · have hpruned : s.prune config a.now = s := prune_eq_self hfresh hfull
    obtain ⟨after, hopened, hafter⟩ : ∃ after,
        s.openMessage S config a.now a.letter.payload a.letter.isHandshake =
          .ok (a.letter.plaintext, after) ∧
        Caught S receiver ratchetKey chain isHandshake low (arrived ++ [a.position]) after := by
      rcases Nat.lt_or_ge a.position (past low arrived) with hlt | hge
      · exact h.late hcipher hl hlow hlt hseen hpruned hown hhigh
      · exact h.ahead hcipher hl hflag hge hgap hfresh hpruned hroom hown hhigh
    have harrive : s.arrive S config a = after := by rw [arrive, Arrival.opened, hopened]
    rw [harrive]
    exact ⟨⟨fun _ => ⟨after, hopened⟩, fun hin => absurd hin hseen⟩, hafter,
      hafter.length_skipped ▸ hroom⟩

end Caught

/-! ## All arrivals -/

variable {turns : List Turn} {arrivals : List Arrival} {first : Nat}

/-- Letters at consecutive positions are known by them. -/
theorem map_index_of_inTransit (h : InTransit .complete S ratchetKey chain low high letters) :
    letters.map (·.index.toNat) = List.range' low letters.length := by
  induction letters generalizing low with
  | nil => rfl
  | cons l ls ih =>
    obtain ⟨-, hindex, hrest⟩ := h
    obtain rfl : low = l.index.toNat := hindex
    rw [List.map_cons, List.length_cons, List.range'_succ, ih hrest]

/-- Where nothing is lost, the letters on their way stand one behind the other. -/
theorem high_of_inTransit (h : InTransit .complete S ratchetKey chain low high letters) :
    high = low + letters.length := by
  induction letters generalizing low with
  | nil => exact h.symm
  | cons l ls ih =>
    obtain ⟨-, hindex, hrest⟩ := h
    obtain rfl : low = l.index.toNat := hindex
    rw [ih hrest, List.length_cons]
    omega

/-- So each has an index between the first position and the last. -/
theorem index_bounds_of_inTransit (h : InTransit .complete S ratchetKey chain low high letters)
    (hl : l ∈ letters) : low ≤ l.index.toNat ∧ l.index.toNat < low + letters.length := by
  have hposition := List.mem_map_of_mem (f := (·.index.toNat)) hl
  rw [map_index_of_inTransit h] at hposition
  exact List.mem_range'_1.mp hposition

/-- A letter on its way was sealed on its chain. -/
theorem isSealed_of_inTransit {d : Delivery} (h : InTransit d S ratchetKey chain low high letters)
    (hl : l ∈ letters) : l.IsSealed S ratchetKey chain := by
  induction letters generalizing low with
  | nil => exact nomatch hl
  | cons l' ls ih =>
    rcases List.mem_cons.mp hl with rfl | hl
    · exact h.1
    · exact ih h.2.2 hl

theorem take_concat {α : Type} {as : List α} {n : Nat} {a : α} (h : as[n]? = some a) :
    as.take (n + 1) = as.take n ++ [a] := by
  rw [List.take_add_one, h]
  rfl

theorem past_take_le (n : Nat) :
    past low ((arrivals.take n).map (·.position)) ≤ past low (arrivals.map (·.position)) :=
  past_le le_past fun _ hi => lt_past_of_mem (((List.take_sublist n arrivals).map _).mem hi)

/-- Letters of one chain arrive at a receiver that is on the chain or reaches it by its next step. -/
structure Arriving (S : Suite) (config : Config) (receiver : Session) (ratchetKey chain : Key)
    (isHandshake : Bool) (low first high : Nat) (letters : List Letter) (arrivals : List Arrival) :
    Prop where
  inTransit : InTransit .complete S ratchetKey chain first high letters
  low_le : low ≤ first
  flags : ∀ l ∈ letters, l.isHandshake = isHandshake
  start : Caught S receiver ratchetKey chain isHandshake low [] receiver
  drawn : ∀ a ∈ arrivals, a.letter ∈ letters
  limits : WithinLimits S config receiver low arrivals
  distinguished : ∀ a ∈ arrivals,
    Distinguished S receiver chain low (past low (arrivals.map (·.position))) a.letter

section Arriving

variable
  (h : Arriving S config receiver ratchetKey chain isHandshake low first high letters arrivals)
include h

/-- What the next arrival does, when the receiver has caught up with those before it. -/
theorem Arriving.next (hcipher : S.CipherUndoes) {n : Nat} {a : Arrival}
    (harrival : arrivals[n]? = some a)
    (hcaught : Caught S receiver ratchetKey chain isHandshake low
      ((arrivals.take n).map (·.position)) s)
    (hreached : receiver.arriveAll S config (arrivals.take n) = s)
    (hfull : s.skipped.length ≤ config.maxSkippedKeys) :
    ReadsOnce S config ((arrivals.take n).map (·.position)) a s ∧
      Caught S receiver ratchetKey chain isHandshake low
        ((arrivals.take (n + 1)).map (·.position)) (s.arrive S config a) ∧
      (s.arrive S config a).skipped.length ≤ config.maxSkippedKeys := by
  have hmem : a ∈ arrivals := List.mem_of_getElem? harrival
  have hin : a.letter ∈ letters := h.drawn a hmem
  obtain ⟨hlt, -⟩ := List.getElem?_eq_some_iff.mp harrival
  obtain ⟨hgap, hfresh, hroom⟩ := h.limits.2 n hlt a harrival
  have hlow : low ≤ a.position := Nat.le_trans h.low_le (index_bounds_of_inTransit h.inTransit hin).1
  rw [hreached] at hfresh
  rw [take_concat harrival, List.map_append, List.map_singleton]
  exact hcaught.arrives hcipher (isSealed_of_inTransit h.inTransit hin) (h.flags _ hin) hlow
    hgap hfresh hfull hroom (h.distinguished a hmem) (past_take_le n)

/-- The receiver catches up with any number of arrivals. -/
theorem Arriving.caught_take (hcipher : S.CipherUndoes) (n : Nat) :
    Caught S receiver ratchetKey chain isHandshake low ((arrivals.take n).map (·.position))
        (receiver.arriveAll S config (arrivals.take n)) ∧
      (receiver.arriveAll S config (arrivals.take n)).skipped.length ≤ config.maxSkippedKeys := by
  induction n with
  | zero => exact ⟨h.start, h.limits.1⟩
  | succ n ih =>
    cases harrival : arrivals[n]? with
    | none =>
      have hlength := List.getElem?_eq_none_iff.mp harrival
      rw [List.take_of_length_le hlength] at ih
      rw [List.take_of_length_le (Nat.le_succ_of_le hlength)]
      exact ih
    | some a =>
      have hstep : receiver.arriveAll S config (arrivals.take (n + 1)) =
          (receiver.arriveAll S config (arrivals.take n)).arrive S config a := by
        rw [take_concat harrival, arriveAll, List.foldl_append]
        rfl
      rw [hstep]
      exact (h.next hcipher harrival ih.1 rfl ih.2).2

/-- Every letter is read the first time it arrives and refused afterwards. -/
theorem Arriving.readsOnce (hcipher : S.CipherUndoes) {n : Nat} {a : Arrival}
    (harrival : arrivals[n]? = some a) :
    ReadsOnce S config ((arrivals.take n).map (·.position)) a
      (receiver.arriveAll S config (arrivals.take n)) := by
  obtain ⟨hcaught, hfull⟩ := h.caught_take hcipher n
  exact (h.next hcipher harrival hcaught rfl hfull).1

end Arriving

/-- Letters at one position are the same letter. -/
theorem eq_of_position (h : InTransit .complete S ratchetKey chain low high letters) {l' : Letter}
    (hl : l ∈ letters) (hl' : l' ∈ letters) (hsame : l.index.toNat = l'.index.toNat) : l = l' := by
  have hnodup : (letters.map (·.index.toNat)).Nodup := by
    rw [map_index_of_inTransit h]
    exact List.nodup_range'
  exact List.inj_on_of_nodup_map hnodup hl hl' hsame

/-- No position is passed over if all letters of the chain have arrived. -/
theorem passedOver_eq_nil (h : InTransit .complete S ratchetKey chain low high letters)
    (hdrawn : ∀ a ∈ arrivals, a.letter ∈ letters)
    (hall : ∀ l ∈ letters, l ∈ arrivals.map (·.letter)) :
    passedOver low (arrivals.map (·.position)) = [] := by
  refine List.eq_nil_iff_forall_not_mem.mpr fun j hj => ?_
  obtain ⟨hlow, hlt, hmissing⟩ := mem_passedOver.mp hj
  have hbelow : past low (arrivals.map (·.position)) ≤ low + letters.length := by
    refine past_le (Nat.le_add_right _ _) fun i hi => ?_
    obtain ⟨a, ha, rfl⟩ := List.mem_map.mp hi
    exact (index_bounds_of_inTransit h (hdrawn a ha)).2
  have hposition : j ∈ letters.map (·.index.toNat) := by
    rw [map_index_of_inTransit h]
    exact List.mem_range'_1.mpr ⟨hlow, Nat.lt_of_lt_of_le hlt hbelow⟩
  obtain ⟨l, hl, rfl⟩ := List.mem_map.mp hposition
  obtain ⟨a, ha, rfl⟩ := List.mem_map.mp (hall l hl)
  exact hmissing (List.mem_map_of_mem ha)

/-- A key pair of the plain suite. -/
def plainPair (n : Nat) : KeyPair := ⟨.ofNatLE 32 n, some (.ofNatLE 32 n)⟩

/-- The initiator of a handshake on the plain suite, and the responder when it has sealed three
letters on its first chain and has read one of the initiator's in between. -/
def plainLetters : Except SessionError (Session × Session × List Letter) := do
  let initiator : Session :=
    .initiator .plain [] (plainPair 1) (plainPair 2) (plainPair 3).publicKey (plainPair 4)
  let responder ← (responder .plain [] (plainPair 4).publicKey.bytes).mapError .crypto
  let (payload, initiator) ← (initiator.sealMessage .plain [9] (.ofSeed 0)).1
  let letters ← sealEach .plain {} false [.seals [1], .reads 0 payload true, .seals [2], .seals [3]]
    responder (.ofSeed 0 [5])
  return (initiator, responder, letters)

end Session

end EndToEnd

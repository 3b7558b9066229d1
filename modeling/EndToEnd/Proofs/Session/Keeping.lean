import Mathlib.Data.List.Induction
import EndToEnd.Proofs.Session.Steps

/-!
# What is kept of the keys that were passed over

A session keeps the keys of the positions that it passed over, each with the time at which that
happened, in the order in which it happened. Whenever a message is read, the keys that are too old by
then are dropped, and of the others the first ones if they are too many. This is done before the
message is looked at and once more behind it, which comes to the same as doing it once for all keys
together: those that were kept, and those of the positions that the message passes over.

A key leaves in one other way, which is to open its message. So the keys of a session are in order at
all times if the clock is, and those that make room for others are the oldest ones.

Main statements:

- `prunes_dueKeys`, `dueKeys_append`: what pruning drops, and that doing it twice is doing it once;
- `openMessage_keeps`: what one read keeps;
- `kept_run`: what is kept by any operations on a session that was started.
-/

namespace EndToEnd.Session

variable {S : Suite} {config : Config} {now : UInt64} {s start after : Session}
  {payload plaintext : Bytes} {isHandshake : Bool} {first : Option Key} {m : Wire.RatchetMessage}
  {offered passed evicted kept keys : List SkippedKey}

/-! ## Pruning -/

/-- The last of the keys that are young enough, as many as are kept. -/
def dueKeys (config : Config) (now : UInt64) (keys : List SkippedKey) : List SkippedKey :=
  let fresh := keys.filter (·.isFresh now config.maxAge)
  fresh.drop (fresh.length - config.maxSkippedKeys)

/-- Pruning a session leaves the keys that are due. -/
theorem prune_skipped (config : Config) (now : UInt64) (s : Session) :
    (s.prune config now).skipped = dueKeys config now s.skipped := rfl

/-- Of the keys on offer, those that are young enough are kept, except for the first ones, which are
evicted if and as far as the others fill the cache. -/
structure Prunes (config : Config) (now : UInt64) (offered evicted kept : List SkippedKey) :
    Prop where
  young : offered.filter (·.isFresh now config.maxAge) = evicted ++ kept
  few : kept.length ≤ config.maxSkippedKeys
  full : evicted ≠ [] → kept.length = config.maxSkippedKeys

/-- The keys that are due are what pruning leaves, and the others were evicted or are too old. -/
theorem prunes_dueKeys (config : Config) (now : UInt64) (keys : List SkippedKey) :
    ∃ evicted, Prunes config now keys evicted (dueKeys config now keys) := by
  let fresh := keys.filter (·.isFresh now config.maxAge)
  have hlength : (dueKeys config now keys).length =
      fresh.length - (fresh.length - config.maxSkippedKeys) := List.length_drop
  refine ⟨fresh.take (fresh.length - config.maxSkippedKeys),
    (List.take_append_drop _ fresh).symm, by omega, ?_⟩
  intro hsome
  have hmany : 0 < fresh.length - config.maxSkippedKeys := by
    apply Nat.pos_of_ne_zero
    intro hzero
    rw [hzero] at hsome
    exact hsome List.take_zero
  omega

/-- A key that is kept is young enough. -/
theorem Prunes.isFresh (h : Prunes config now offered evicted kept) {k : SkippedKey} (hk : k ∈ kept) :
    k.isFresh now config.maxAge = true := by
  have hmem : k ∈ offered.filter (·.isFresh now config.maxAge) := by
    rw [h.young]
    exact List.mem_append_right _ hk
  exact (List.mem_filter.mp hmem).2

/-- What is kept and what is evicted stand in the order of what was offered. -/
theorem Prunes.sublist (h : Prunes config now offered evicted kept) :
    (evicted ++ kept).Sublist offered := by
  rw [← h.young]
  exact List.filter_sublist

/-- A key is young enough at the time at which it is passed over. -/
theorem isFresh_of_timestamp_eq {k : SkippedKey} {maxAge : Nat} (h : k.timestamp = now) :
    k.isFresh now maxAge = true := by
  rw [SkippedKey.isFresh, h, Nat.sub_self]
  exact decide_eq_true (Nat.zero_le _)

/-- Pruning before keys are added to the others makes no difference, if they are pruned together
then. -/
theorem dueKeys_append (hpassed : ∀ k ∈ passed, k.timestamp = now) :
    dueKeys config now (dueKeys config now keys ++ passed) = dueKeys config now (keys ++ passed) := by
  let fresh := keys.filter (·.isFresh now config.maxAge)
  let many := fresh.length - config.maxSkippedKeys
  have hnew : passed.filter (·.isFresh now config.maxAge) = passed :=
    List.filter_eq_self.mpr fun k hk => isFresh_of_timestamp_eq (hpassed k hk)
  have hold : (fresh.drop many).filter (·.isFresh now config.maxAge) = fresh.drop many :=
    List.filter_eq_self.mpr fun k hk => (List.mem_filter.mp (List.mem_of_mem_drop hk)).2
  have htwice : (dueKeys config now keys ++ passed).filter (·.isFresh now config.maxAge) =
      (fresh ++ passed).drop many := by
    rw [List.filter_append, hnew, List.drop_append_of_le_length (Nat.sub_le _ _)]
    exact congrArg (· ++ passed) hold
  have honce : (keys ++ passed).filter (·.isFresh now config.maxAge) = fresh ++ passed := by
    rw [List.filter_append, hnew]
  unfold dueKeys at htwice ⊢
  simp only [htwice, honce, List.drop_drop, List.length_drop, List.length_append]
  congr 1
  omega

/-! ## One read -/

/-- The keys of the positions between that of the chain and that of the message, passed over now. -/
def PassesOver (S : Suite) (now : UInt64) (s : Session) (isHandshake : Bool)
    (m : Wire.RatchetMessage) (passed : List SkippedKey) : Prop :=
  ∃ mid chain, s.ReadsOn S m.ratchetKey isHandshake mid ∧ mid.receiveChain = some chain ∧
    passed = ((List.range (mid.ahead m.chainIndex)).map (messageKeyAt S chain)).map
      (SkippedKey.mk now)

/-- What a read leaves of the keys kept before and of those passed over by it: what pruning all of
them together leaves, up to the key that opens the message, if a kept one does. -/
structure ReadKeeps (S : Suite) (config : Config) (now : UInt64) (s : Session) (isHandshake : Bool)
    (m : Wire.RatchetMessage) (body mac : Bytes) (after : Session)
    (passed evicted kept : List SkippedKey) : Prop where
  prunes : Prunes config now (s.skipped ++ passed) evicted kept
  left : after.skipped = kept ∧ s.PassesOver S now isHandshake m passed ∨
    ∃ before k behind, k.opens S body mac = true ∧ passed = [] ∧ kept = before ++ k :: behind ∧
      after.skipped = before ++ behind

/-- A key that is passed over bears the time of the reading. -/
theorem PassesOver.passed_now (h : s.PassesOver S now isHandshake m passed) :
    ∀ k ∈ passed, k.timestamp = now := by
  obtain ⟨mid, chain, -, -, rfl⟩ := h
  intro k hk
  obtain ⟨_, -, rfl⟩ := List.mem_map.mp hk
  rfl

theorem ReadKeeps.passed_now {body mac : Bytes}
    (h : ReadKeeps S config now s isHandshake m body mac after passed evicted kept) :
    ∀ k ∈ passed, k.timestamp = now := by
  rcases h.left with ⟨-, hpasses⟩ | ⟨_, _, _, -, rfl, -, -⟩
  · exact hpasses.passed_now
  · exact nofun

/-- A session keeps what pruning has left, in order, but for the key that was used. -/
theorem ReadKeeps.sublist {body mac : Bytes}
    (h : ReadKeeps S config now s isHandshake m body mac after passed evicted kept) :
    after.skipped.Sublist kept := by
  rcases h.left with ⟨hsame, -⟩ | ⟨before, k, behind, -, -, hkept, hafter⟩
  · exact hsame ▸ List.Sublist.refl _
  · rw [hkept, hafter]
    exact (List.sublist_cons_self k behind).append_left before

/-- Every message that is read keeps as said. -/
theorem openMessage_keeps
    (h : s.openMessage S config now payload isHandshake = .ok (plaintext, after)) :
    ∃ body mac m passed evicted kept, Wire.splitMac payload = .ok (body, mac) ∧
      Wire.RatchetMessage.decode body = .ok m ∧
      ReadKeeps S config now s isHandshake m body mac.bytes after passed evicted kept := by
  obtain ⟨body, mac, m, key, hsplit, hdecode, rfl, -, huses⟩ := openMessage_byKey h
  rcases huses with ⟨before, entry, behind, huses⟩ | ⟨mid, chain, huses⟩
  · obtain ⟨evicted, hprunes⟩ := prunes_dueKeys config now s.skipped
    rw [← prune_skipped, huses.skipped, ← List.append_nil s.skipped] at hprunes
    refine ⟨body, _, m, [], evicted, _, hsplit, hdecode, hprunes, .inr ?_⟩
    exact ⟨before, entry, behind, huses.opens, rfl, rfl, by rw [huses.after_eq]⟩
  · obtain ⟨next, -, hafter⟩ := huses.after_eq
    have hpasses : s.PassesOver S now isHandshake m _ :=
      ⟨mid, chain, huses.readsOn, huses.receiveChain, rfl⟩
    obtain ⟨evicted, hprunes⟩ := prunes_dueKeys config now (s.skipped ++ _)
    refine ⟨body, _, m, _, evicted, _, hsplit, hdecode, hprunes, .inl ⟨?_, hpasses⟩⟩
    rw [hafter, prune_skipped]
    exact dueKeys_append hpasses.passed_now

/-! ## A run of operations -/

/-- An operation on a session, with all that it is given. -/
inductive Operation
  | send (isHandshake : Bool) (plaintext : Bytes) (env : Environment)
  | read (config : Config) (now : UInt64) (payload : Bytes) (isHandshake : Bool)

/-- The session that an operation gives back, or the one from before if it is refused. -/
def settled (s : Session) : Except SessionError (Bytes × Session) → Session
  | .ok (_, after) => after
  | .error _ => s

/-- The session after an operation. -/
def perform (S : Suite) (s : Session) : Operation → Session
  | .send isHandshake plaintext env => s.settled (s.sealAs S isHandshake plaintext env).1
  | .read config now payload isHandshake =>
    s.settled (s.openMessage S config now payload isHandshake)

def performAll (S : Suite) (s : Session) (ops : List Operation) : Session := ops.foldl (perform S) s

/-- The times at which messages are read. -/
def times (ops : List Operation) : List UInt64 :=
  ops.filterMap fun
    | .send .. => none
    | .read _ now _ _ => some now

/-- Keys in the order in which they were passed over. -/
def InOrder (keys : List SkippedKey) : Prop := keys.Pairwise (·.timestamp ≤ ·.timestamp)

theorem performAll_concat (ops : List Operation) (op : Operation) :
    performAll S s (ops ++ [op]) = (performAll S s ops).perform S op := by
  rw [performAll, List.foldl_append]
  rfl

theorem Starts.nothing_received (h : Starts S first start) :
    start.receiveIndex = 0 ∧ start.skipped = [] := by
  cases h with
  | initiator => exact ⟨rfl, rfl⟩
  | responder started =>
    obtain ⟨_, -, started⟩ := bind_eq_ok.mp started
    obtain rfl := Except.ok.inj started
    exact ⟨rfl, rfl⟩

/-- The kept keys are those from before, unless a message was read. -/
theorem perform_cases (S : Suite) (s : Session) (op : Operation) :
    (s.perform S op).skipped = s.skipped ∨
      ∃ config now payload isHandshake plaintext, op = .read config now payload isHandshake ∧
        s.openMessage S config now payload isHandshake = .ok (plaintext, s.perform S op) := by
  cases op with
  | send isHandshake plaintext env =>
    left
    rw [perform]
    cases hsealed : (s.sealAs S isHandshake plaintext env).1 with
    | error => rfl
    | ok done => exact (sealAs_spares hsealed).1.skipped
  | read config now payload isHandshake =>
    rw [perform]
    cases hopened : s.openMessage S config now payload isHandshake with
    | error => exact .inl rfl
    | ok done => exact .inr ⟨config, now, payload, isHandshake, done.1, rfl, hopened⟩

/-- Every kept key was passed over when a message was read. -/
theorem timestamp_mem_times (hstart : start.skipped = []) (ops : List Operation) {k : SkippedKey}
    (hk : k ∈ (performAll S start ops).skipped) : k.timestamp ∈ times ops := by
  induction ops using List.reverseRecOn with
  | nil => exact absurd hk (hstart ▸ List.not_mem_nil)
  | append_singleton ops op ih =>
    rw [performAll_concat] at hk
    rw [times, List.filterMap_append]
    rcases perform_cases S (performAll S start ops) op with hsame | ⟨_, now, _, _, _, rfl, hopened⟩
    · rw [hsame] at hk
      exact List.mem_append_left _ (ih hk)
    · obtain ⟨_, _, _, passed, evicted, kept, -, -, hkeeps⟩ := openMessage_keeps hopened
      have hoffered := hkeeps.prunes.sublist.subset
        (List.mem_append_right _ (hkeeps.sublist.subset hk))
      rcases List.mem_append.mp hoffered with hold | hnew
      · exact List.mem_append_left _ (ih hold)
      · rw [hkeeps.passed_now k hnew]
        exact List.mem_append_right _ List.mem_cons_self

/-- Keys that are passed over now go behind all others, if the clock has not gone back. -/
theorem InOrder.append (h : InOrder keys) (hbefore : ∀ k ∈ keys, k.timestamp ≤ now)
    (hpassed : ∀ k ∈ passed, k.timestamp = now) : InOrder (keys ++ passed) := by
  refine List.pairwise_append.mpr ⟨h, List.pairwise_of_forall_mem_list ?_, ?_⟩
  · intro k hk k' hk'
    rw [hpassed k hk, hpassed k' hk']
    exact UInt64.le_refl now
  · intro k hk k' hk'
    rw [hpassed k' hk']
    exact hbefore k hk

/-- If the clock never went back, no kept key is from later than now. -/
theorem le_of_times {ops : List Operation} (hclock : (times ops ++ [now]).Pairwise (· ≤ ·))
    (hstart : start.skipped = []) {k : SkippedKey} (hk : k ∈ (performAll S start ops).skipped) :
    k.timestamp ≤ now :=
  (List.pairwise_append.mp hclock).2.2 _ (timestamp_mem_times hstart ops hk) _ List.mem_cons_self

/-- A clock that never goes back keeps the keys in order. -/
theorem inOrder_run (hstart : start.skipped = []) (ops : List Operation)
    (hclock : (times ops).Pairwise (· ≤ ·)) : InOrder (performAll S start ops).skipped := by
  induction ops using List.reverseRecOn with
  | nil =>
    show InOrder start.skipped
    rw [hstart]
    exact List.Pairwise.nil
  | append_singleton ops op ih =>
    rw [times, List.filterMap_append] at hclock
    have hbefore := ih (List.pairwise_append.mp hclock).1
    rw [performAll_concat]
    rcases perform_cases S (performAll S start ops) op with hsame | ⟨_, now, _, _, _, rfl, hopened⟩
    · rw [hsame]
      exact hbefore
    · obtain ⟨_, _, _, passed, evicted, kept, -, -, hkeeps⟩ := openMessage_keeps hopened
      have hoffered := hbefore.append (fun k => le_of_times hclock hstart) hkeeps.passed_now
      have hkept := (List.sublist_append_right evicted kept).trans hkeeps.prunes.sublist
      exact List.Pairwise.sublist (hkeeps.sublist.trans hkept) hoffered

/-- However a session has come about, a message that is read leaves no more keys than are kept, and
none that is too old. What is dropped of the others to make room comes before all that is kept, and
no more of it is dropped than there has to be; besides, the read takes away the key that it uses, if
it is a kept one. While the clock does not go back the keys are in order, so those that make room are
the oldest ones. -/
theorem kept_run (hstart : Starts S first start) (ops : List Operation) :
    ((times ops).Pairwise (· ≤ ·) → InOrder (performAll S start ops).skipped) ∧
    ∀ config now payload isHandshake plaintext after,
      (performAll S start ops).openMessage S config now payload isHandshake =
          .ok (plaintext, after) →
        after.skipped.length ≤ config.maxSkippedKeys ∧
        (∀ k ∈ after.skipped, now.toNat - k.timestamp.toNat ≤ config.maxAge) ∧
        ∃ body mac m passed evicted kept, Wire.splitMac payload = .ok (body, mac) ∧
          Wire.RatchetMessage.decode body = .ok m ∧
          ReadKeeps S config now (performAll S start ops) isHandshake m body mac.bytes after
            passed evicted kept ∧
          ((times ops ++ [now]).Pairwise (· ≤ ·) →
            InOrder ((performAll S start ops).skipped ++ passed) ∧ InOrder after.skipped ∧
            ∀ old ∈ evicted, ∀ k ∈ kept, old.timestamp ≤ k.timestamp) := by
  have hempty := hstart.nothing_received.2
  refine ⟨inOrder_run hempty ops, ?_⟩
  intro config now payload isHandshake plaintext after h
  obtain ⟨body, mac, m, passed, evicted, kept, hsplit, hdecode, hkeeps⟩ := openMessage_keeps h
  refine ⟨Nat.le_trans hkeeps.sublist.length_le hkeeps.prunes.few, ?_, body, mac, m, passed, evicted,
    kept, hsplit, hdecode, hkeeps, ?_⟩
  · intro k hk
    exact of_decide_eq_true (hkeeps.prunes.isFresh (hkeeps.sublist.subset hk))
  · intro hclock
    have hoffered : InOrder ((performAll S start ops).skipped ++ passed) :=
      (inOrder_run hempty ops (List.pairwise_append.mp hclock).1).append
        (fun k => le_of_times hclock hempty) hkeeps.passed_now
    have hkept := List.Pairwise.sublist hkeeps.prunes.sublist hoffered
    refine ⟨hoffered, ?_, (List.pairwise_append.mp hkept).2.2⟩
    exact List.Pairwise.sublist hkeeps.sublist (List.pairwise_append.mp hkept).2.1

/-- The session of the side that answers a handshake on the plain suite, and the first and the third
of the messages that it can read. -/
def plainGaps : Except SessionError (Session × Bytes × Bytes) := do
  let responder ← (responder .plain [] (Octets.replicate 32 4).bytes).mapError .crypto
  let (_, started) ← (plainStart.sealMessage .plain [1] (.ofSeed 0)).1
  let (early, started) ← (started.sealMessage .plain [2] (.ofSeed 0)).1
  let (_, started) ← (started.sealMessage .plain [3] (.ofSeed 0)).1
  let (late, _) ← (started.sealMessage .plain [4] (.ofSeed 0)).1
  return (responder, early, late)

/-- Two messages are read with one passed over before each. Where one key is kept at most, it is that
of the later one. -/
theorem kept_run_evicts : ∃ responder early late, plainGaps = .ok (responder, early, late) ∧
    let s := performAll .plain responder [.read {} 3 early true]
    ∃ plaintext after,
      s.openMessage .plain { maxSkippedKeys := 1 } 5 late true = .ok (plaintext, after) ∧
      s.skipped.map (·.timestamp) = [3] ∧ after.skipped.map (·.timestamp) = [5] ∧
      InOrder s.skipped ∧ InOrder after.skipped ∧ after.skipped.length ≤ 1 := by
  have hrun : ∃ run, plainGaps = .ok run ∧
      (performAll .plain run.1 [.read {} 3 run.2.1 true]).skipped.map (·.timestamp) = [3] ∧
      ∃ opened, (performAll .plain run.1 [.read {} 3 run.2.1 true]).openMessage .plain
        { maxSkippedKeys := 1 } 5 run.2.2 true = .ok opened ∧
      opened.2.skipped.map (·.timestamp) = [5] := by
    decide +kernel
  obtain ⟨⟨responder, early, late⟩, hrun, hbefore, ⟨plaintext, after⟩, hopened, hafter⟩ := hrun
  refine ⟨responder, early, late, hrun, plaintext, after, hopened, hbefore, hafter, ?_⟩
  have hstart : Starts .plain (some (.replicate 32 4)) responder := by
    obtain ⟨start, hstarted, hrun⟩ := bind_eq_ok.mp hrun
    obtain ⟨_, -, hrun⟩ := bind_eq_ok.mp hrun
    obtain ⟨_, -, hrun⟩ := bind_eq_ok.mp hrun
    obtain ⟨_, -, hrun⟩ := bind_eq_ok.mp hrun
    obtain ⟨_, -, hrun⟩ := bind_eq_ok.mp hrun
    obtain rfl : start = responder := (Prod.mk.inj (Except.ok.inj hrun)).1
    exact .responder (mapError_eq_ok.mp hstarted)
  obtain ⟨horder, hread⟩ := kept_run hstart [.read {} 3 early true]
  obtain ⟨hfew, -, _, _, _, _, _, _, -, -, -, hclock⟩ := hread _ _ _ _ _ _ hopened
  have hclocked : (([3] : List UInt64) ++ [5]).Pairwise (· ≤ ·) := by decide
  exact ⟨horder (List.pairwise_singleton _ _), (hclock hclocked).2.1, hfew⟩

end EndToEnd.Session

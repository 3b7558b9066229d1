import EndToEnd.Proofs.Conversation.Exchange
import EndToEnd.Proofs.Session.Receipts

/-!
# Letters that come late

A transcript is of two sessions of one handshake, on which any operations are performed in any order:
either side seals what it likes, as a handshake message or not, and reads whatever bytes it is handed,
under any limits and at any time. It keeps the letters that each side has sealed, and what each has
received.

A letter may come when its receiver has gone on to a later chain, by any number of steps. Then it is
read exactly if its key is still kept and is due. Nothing else in the session changes by it, and a
letter that is refused changes nothing.

Main statements:

- `Kept.run`: what was received is accounted for, and what was sealed is letters of chains;
- `late_letter`: which late letters are read, and what becomes of the session.
-/

namespace EndToEnd

namespace Session

/-- The letter is sealed by a session that is ready to send. -/
structure SealsLetter (S : Suite) (mid : Session) (l : Letter) : Prop where
  index : l.index = mid.sendIndex
  key : mid.sendChain.map (messageKey S) = some l.key
  payload : ∃ after, mid.sealNext S l.plaintext = .ok (l.payload, after)

/-- The letter that a session seals, and the session that is ready to seal it. -/
def sealedLetter (S : Suite) (isHandshake : Bool) (s : Session) (plaintext : Bytes)
    (env : Environment) : Except SessionError (Session × Letter) := do
  let _ ← (s.sealAs S isHandshake plaintext env).1
  let mid ← (s.readied S env).1
  let (payload, _) ← mid.sealNext S plaintext
  match mid.sendChain with
  | none => .error .noSendChain
  | some chain => return (mid, ⟨mid.sendIndex, isHandshake, messageKey S chain, plaintext, payload⟩)

/-- The letters that an operation seals: one, if it is a send that succeeds. -/
def sealedBy (S : Suite) (s : Session) : Operation → List (Session × Letter)
  | .send isHandshake plaintext env =>
    (s.sealedLetter S isHandshake plaintext env).toOption.toList
  | .read .. => []

variable {S : Suite} {s mid : Session} {l : Letter} {isHandshake : Bool} {plaintext : Bytes}
  {env : Environment}

/-- A letter that the session sealed is one of the letters it can seal. -/
theorem sealsLetter_of_sealedLetter
    (h : s.sealedLetter S isHandshake plaintext env = .ok (mid, l)) : SealsLetter S mid l := by
  obtain ⟨_, -, h⟩ := bind_eq_ok.mp h
  obtain ⟨ready, -, h⟩ := bind_eq_ok.mp h
  obtain ⟨⟨payload, after⟩, hsealed, h⟩ := bind_eq_ok.mp h
  dsimp only at h
  split at h
  next => exact nomatch h
  next chain hchain =>
    obtain ⟨rfl, rfl⟩ := Prod.mk.inj (Except.ok.inj h)
    exact ⟨rfl, by rw [hchain]; rfl, after, hsealed⟩

theorem sealsLetter_of_mem {op : Operation} (h : (mid, l) ∈ s.sealedBy S op) :
    SealsLetter S mid l := by
  cases op with
  | read => exact nomatch h
  | send isHandshake plaintext env =>
    have hsome := Option.mem_toList.mp h
    cases hsealed : s.sealedLetter S isHandshake plaintext env with
    | error cause =>
      rw [hsealed] at hsome
      exact nomatch hsome
    | ok sealed =>
      rw [hsealed] at hsome
      obtain rfl := Option.some.inj hsome
      exact sealsLetter_of_sealedLetter hsealed

/-- It is a letter of the chain that the session sends on. -/
theorem SealsLetter.isSealed (h : SealsLetter S mid l) {pair : KeyPair} {first : Key}
    (hsends : Sends S mid pair first) : l.IsSealed S pair.publicKey first := by
  obtain ⟨after, hsealed⟩ := h.payload
  have hl := (hsends.letter h.key hsealed l.isHandshake).1
  rw [← h.index] at hl
  exact hl

end Session

/-- Two sessions of one handshake, the letters that each has sealed, and what each has received. -/
structure Transcript where
  session : Side → Session
  sent : Side → List (Session × Letter)
  received : Side → Receipts

namespace Transcript

open Session (Operation)

/-- Nothing was sealed or received. -/
def start (c : Conversation) : Transcript :=
  ⟨c.session, fun _ => [], fun side => .start (c.session side)⟩

/-- An operation of one side. -/
def step (S : Suite) (x : Transcript) : Side × Operation → Transcript
  | (side, op) =>
    { session := Function.update x.session side ((x.session side).perform S op)
      sent := Function.update x.sent side (x.sent side ++ (x.session side).sealedBy S op)
      received := Function.update x.received side
        ((x.received side).during S (x.session side) op) }

def run (S : Suite) (x : Transcript) (events : List (Side × Operation)) : Transcript :=
  events.foldl (step S) x

variable {S : Suite} {x : Transcript} {c : Conversation} {reader : Side} {config : Config}
  {now : UInt64}

/-- What was received is accounted for, and what was sealed is letters. -/
structure Kept (S : Suite) (x : Transcript) : Prop where
  accounts : ∀ side, (x.received side).Accounts S (x.session side)
  sealed : ∀ side, ∀ sent ∈ x.sent side, Session.SealsLetter S sent.1 sent.2

/-- Each side's session is one that was started. -/
theorem starts_of_isFresh (hfresh : c.IsFresh S) (side : Side) :
    ∃ first, Session.Starts S first (c.session side) := by
  obtain ⟨secret, identity, ephemeral, theirOneTime, ratchet, hinitiator, hresponder⟩ := hfresh
  cases side with
  | initiator =>
    refine ⟨none, ?_⟩
    show Session.Starts S none c.initiator
    rw [hinitiator]
    exact .initiator
  | responder => exact ⟨some ratchet.publicKey, .responder hresponder⟩

/-- A fresh conversation keeps account. -/
theorem Kept.start (hfresh : c.IsFresh S) : (start c).Kept S where
  accounts side := .start (starts_of_isFresh hfresh side).choose_spec
  sealed _ _ hsent := absurd hsent List.not_mem_nil

/-- An operation of either side keeps the accounts. -/
theorem Kept.step (h : x.Kept S) (event : Side × Operation) : (x.step S event).Kept S := by
  obtain ⟨actor, op⟩ := event
  refine ⟨fun side => ?_, fun side => ?_⟩
  · by_cases hside : side = actor
    · subst hside
      simp only [Transcript.step, Function.update_self]
      exact (h.accounts side).during op
    · simp only [Transcript.step, Function.update_of_ne hside]
      exact h.accounts side
  · by_cases hside : side = actor
    · subst hside
      simp only [Transcript.step, Function.update_self]
      rintro ⟨mid, l⟩ hsent
      rcases List.mem_append.mp hsent with hold | hnew
      · exact h.sealed side _ hold
      · exact Session.sealsLetter_of_mem hnew
    · simp only [Transcript.step, Function.update_of_ne hside]
      exact h.sealed side

/-- Account is kept over any events. -/
theorem Kept.run (h : x.Kept S) (events : List (Side × Operation)) : (x.run S events).Kept S := by
  induction events generalizing x with
  | nil => exact h
  | cons event events ih => exact ih (h.step event)

/-- A read that is refused changes nothing. -/
theorem step_of_refused {payload : Bytes} {isHandshake : Bool} {cause : SessionError}
    (h : (x.session reader).openMessage S config now payload isHandshake = .error cause) :
    x.step S (reader, .read config now payload isHandshake) = x := by
  simp only [step, Session.perform, Receipts.during, Session.sealedBy, h, Session.settled,
    List.append_nil, Function.update_eq_self]

/-- A letter of a chain that its receiver has left is read exactly if its key is kept and is due.
Its key is kept only if it was not read before, and a message was read behind it along its chain. If
it is read it is read as what was sealed, and nothing but its key and those that are no longer due
leaves the session; else it is refused and nothing changes. It is enough that of all places that the
receiver goes past, if the letter is delivered, it has the authenticator of its own only. -/
theorem late_letter (hcipher : S.CipherUndoes) (hfresh : c.IsFresh S)
    (events : List (Side × Operation)) {mid : Session} {l : Letter} {pair : KeyPair} {j : Nat}
    {chain : ReceivedChain} (hsent : (mid, l) ∈ ((start c).run S events).sent reader.peer)
    (hearlier : (((start c).run S events).received reader).earlier[j]? = some chain)
    (hchain : Session.Sends S mid pair chain.first)
    (hown : (((start c).run S (events ++
      [(reader, .read config now l.payload l.isHandshake)])).received reader).Distinguishes S
        l.payload (j, l.index.toNat)) :
    let x := (start c).run S events
    let s := x.session reader
    let opened := s.openMessage S config now l.payload l.isHandshake
    ((∃ done, opened = .ok done) ↔ ∃ k, s.Due config now k ∧ k.key = l.key) ∧
      ((∃ k ∈ s.skipped, k.key = l.key) →
        l.payload ∉ (x.received reader).opened ∧ ∃ top ∈ chain.accepted, l.index.toNat < top) ∧
      (∀ plaintext after, opened = .ok (plaintext, after) → plaintext = l.plaintext ∧
        ∃ before k behind, k.key = l.key ∧
          (s.prune config now).skipped = before ++ k :: behind ∧
          after = { s with skipped := before ++ behind }) ∧
      ((¬ ∃ k, s.Due config now k ∧ k.key = l.key) → (∃ cause, opened = .error cause) ∧
        x.step S (reader, .read config now l.payload l.isHandshake) = x) := by
  have hkept := (Kept.start hfresh).run events
  -- the delivery is one more step behind the run, whatever the run was
  rw [run, List.foldl_append] at hown
  change ((((start c).run S events).step S
    (reader, .read config now l.payload l.isHandshake)).received reader).Distinguishes _ _ _ at hown
  generalize (start c).run S events = x at *
  have hl := (hkept.sealed reader.peer _ hsent).isSealed hchain
  have haccounts := hkept.accounts reader
  simp only [Transcript.step, Function.update_self] at hown
  have hiff := haccounts.opened_iff hcipher hearlier hl hown
  refine ⟨hiff, ?_, ?_, ?_⟩
  · rintro ⟨k, hk, hkey⟩
    exact haccounts.passed_over hearlier hl
      (hown.of_extends (Receipts.extends_during S _ _ _)) hk hkey
  · intro plaintext after hopen
    obtain ⟨hplain, before, k, behind, -, hkey, hskipped, hafter⟩ :=
      haccounts.opened_with_kept hcipher hearlier hl hown hopen
    exact ⟨hplain, before, k, behind, hkey, hskipped, hafter⟩
  · intro hnone
    cases hopen : (x.session reader).openMessage S config now l.payload l.isHandshake with
    | ok done => exact absurd (hiff.mp ⟨done, hopen⟩) hnone
    | error cause => exact ⟨⟨cause, rfl⟩, step_of_refused hopen⟩

/-- The delivery of a letter of the other side, by its number. -/
def delivery (x : Transcript) (reader : Side) (n : Nat) : List (Side × Operation) :=
  (x.sent reader.peer)[n]?.toList.map fun (_, l) =>
    (reader, .read {} 0 l.payload l.isHandshake)

/-- The initiator seals two letters and the second is delivered, and then each side answers the
other in a chain of its own. -/
def plainEvents (c : Conversation) : List (Side × Operation) :=
  let spoken : List (Side × Operation) :=
    [(.initiator, .send true [1] (.ofSeed 0)), (.initiator, .send true [2] (.ofSeed 0))]
  let heard := spoken ++ ((start c).run .plain spoken).delivery .responder 1 ++
    [(.responder, .send false [7] (.ofSeed 0 [5]))]
  let answered := heard ++ ((start c).run .plain heard).delivery .initiator 0 ++
    [(.initiator, .send false [3] (.ofSeed 0 [6]))]
  answered ++ ((start c).run .plain answered).delivery .responder 2

/-- The first letter is read when its receiver has gone on to the next chain, and its key is not kept
any longer. -/
theorem late_letter_delivered : ∃ c mid l after,
    Conversation.start .plain (Exchange.drawing [1, 2, 3, 4, 5]) {} = .ok c ∧
      let x := (start c).run .plain (plainEvents c)
      (x.sent .initiator)[0]? = some (mid, l) ∧ l.plaintext = [1] ∧
      (x.received .responder).earlier.map (·.accepted) = [[1]] ∧
      (x.session .responder).openMessage .plain {} 0 l.payload l.isHandshake = .ok ([1], after) ∧
      after = { x.session .responder with skipped := [] } := by
  have hrun : ∃ c, Conversation.start .plain (Exchange.drawing [1, 2, 3, 4, 5]) {} = .ok c ∧
      let x := (start c).run .plain (plainEvents c)
      ∃ sent ∈ (x.sent .initiator)[0]?, ∃ chain ∈ (x.received .responder).earlier[0]?,
        (x.received .responder).earlier.map (·.accepted) = [[1]] ∧
        (∃ pair ∈ sent.1.ratchet,
          sent.1.sendChain = some (chainKeyAt .plain chain.first sent.1.sendIndex.toNat)) ∧
        sent.2.plaintext = [1] ∧ (x.session .responder).skipped.length = 1 ∧
        (∃ k ∈ ((x.session .responder).prune {} 0).skipped, k.key = sent.2.key) ∧
        (((start c).run .plain (plainEvents c ++
          [(.responder, .read {} 0 sent.2.payload sent.2.isHandshake)])).received
            .responder).Distinguishes .plain sent.2.payload (0, sent.2.index.toNat) := by
    decide +kernel
  obtain ⟨c, hstart, ⟨mid, l⟩, hsent, chain, hearlier, haccepted, ⟨pair, hpair, hsends⟩, hplain,
    hone, ⟨k, hk, hkey⟩, hown⟩ := hrun
  rw [Option.mem_def] at hsent hearlier
  have hmem : (mid, l) ∈ ((start c).run .plain (plainEvents c)).sent Side.responder.peer :=
    List.mem_of_getElem? hsent
  obtain ⟨hiff, -, hread, -⟩ := late_letter Suite.plain_cipherUndoes
    (Conversation.isFresh_of_start hstart) (plainEvents c) hmem hearlier ⟨hpair, hsends⟩ hown
  obtain ⟨⟨plaintext, after⟩, hopen⟩ := hiff.mpr ⟨k, Session.mem_prune_iff.mp hk, hkey⟩
  obtain ⟨hsame, before, k', behind, -, hskipped, hafter⟩ := hread plaintext after hopen
  replace hsame : plaintext = [1] := hsame.trans hplain
  rw [hsame] at hopen
  refine ⟨c, mid, l, after, hstart, hsent, hplain, haccepted, hopen, ?_⟩
  have hlength := (Session.prune_sublist {} 0
    (((start c).run .plain (plainEvents c)).session .responder)).length_le
  rw [hskipped, hone, List.length_append, List.length_cons] at hlength
  have hnone : before ++ behind = [] := by
    rw [← List.length_eq_zero_iff, List.length_append]
    omega
  rw [hafter, hnone]

end Transcript

end EndToEnd

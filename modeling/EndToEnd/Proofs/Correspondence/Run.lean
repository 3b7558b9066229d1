import EndToEnd.Conversation
import EndToEnd.Device.Decryption
import EndToEnd.Device.Encryption
import EndToEnd.Device.Publication
import EndToEnd.Proofs.Bundle
import EndToEnd.Proofs.Device.Running
import EndToEnd.Proofs.Handshake
import EndToEnd.Proofs.Session.Lockstep

/-!
# Two devices that write to each other

A correspondence is two devices with their states and the envelopes on their way between them. Each
side may write, try to read the next envelope from the other, publish its bundle and learn one that
the other has published, in any order. An envelope that cannot be read stays the next one, so it can
be tried again, and it can be lost.

Beside the devices, a correspondence keeps what the laws speak of: what was written in each envelope,
which key pairs each side has generated, how many envelopes it has read, and whether a session was
replaced under the other side's hands.

Main statements:

- `extends_step`: what a correspondence keeps count of only grows;
- `Assumed.of_extends`: what is assumed of a run held before each of its steps.
-/

namespace EndToEnd

/-- A device, its state, and the name that its owner goes by. -/
structure Correspondent (σ : Type) where
  name : String
  device : Device
  state : Device.State σ

/-- An envelope on its way, and what was written in it. -/
structure Post where
  envelope : Wire.Envelope
  plaintext : Bytes
  bodyKey : Key
  /-- Its writer has replaced the session that it was sealed in. -/
  stale : Bool

/-- Two devices, and what is on its way from each, the next to arrive first. -/
structure Correspondence (σ : Type) where
  party : Side → Correspondent σ
  sent : Side → List Post
  /-- The bundles that each side has published. -/
  published : Side → List Wire.PublishedBundle
  /-- The key pairs that each side has generated and used, the oldest first. -/
  generated : Side → List KeyPair
  /-- How many envelopes each side has read. -/
  read : Side → Nat
  /-- The side has started a session by writing. -/
  initiated : Side → Bool
  /-- A side has replaced a session of which the other has read something. -/
  superseded : Bool

namespace Correspondence

variable {σ : Type}

/-- What can happen to a correspondence. -/
inductive Event
  /-- A side writes to the other. -/
  | write (writer : Side) (plaintext : Bytes)
  /-- A side tries to read the next envelope. -/
  | read (reader : Side)
  /-- The next envelope from a side is lost, or given up by its reader. -/
  | lose (writer : Side)
  /-- A side publishes its bundle. -/
  | publish (publisher : Side)
  /-- A side publishes its bundle if it has changed. -/
  | republish (publisher : Side)
  /-- A side learns a bundle that the other has published. -/
  | learn (learner : Side) (position : Nat)
  /-- Time passes for a side. -/
  | wait (side : Side) (seconds : UInt64)

/-- The identifier of the device of a side. -/
def id (x : Correspondence σ) (side : Side) : DeviceId := (x.party side).device.id

/-- The correspondence with another state on one side. -/
def withState (x : Correspondence σ) (side : Side) (state : Device.State σ) : Correspondence σ :=
  { x with party := Function.update x.party side { x.party side with state } }

variable [Store σ] [LawfulStore σ]

/-- What a side has stored. -/
def records (x : Correspondence σ) (side : Side) : Records := (x.party side).state.records

/-- The session that a side has with the other. -/
def session (x : Correspondence σ) (side : Side) : Option Session :=
  (x.records side).session (x.id side.peer)

/-- The key pairs that a session takes into use when it seals. -/
def drawnKeys : (before after : Option Session) → List KeyPair
  | none, some after => after.ephemeral.toList ++ after.ratchet.toList
  | some before, some after => if before.sendStepDue.isSome then after.ratchet.toList else []
  | _, none => []

/-- The one-time keys that a bundle gets when one is used up. -/
def addedKeys : (before after : Option Bundle) → List KeyPair
  | some before, some after =>
    if after = before then []
    else (after.oneTimeKeys.drop (before.oneTimeKeys.length - 1)).map (·.pair)
  | _, _ => []

/-- A session that has sent is replaced by one that has not. -/
def replaces : (before after : Option Session) → Bool
  | some before, some after => before.ratchet.isSome && after.ratchet.isNone
  | _, _ => false

/-- The envelopes of a side after it has replaced a session, or not. -/
def outdated (replaced : Bool) (posts : List Post) : List Post :=
  if replaced then posts.map ({ · with stale := true }) else posts

/-- The correspondence after a side has put an envelope on its way, with the state it is in then. -/
def posted (x : Correspondence σ) (writer : Side) (p : Post) (state : Device.State σ) :
    Correspondence σ :=
  let after := x.withState writer state
  { after with
    sent := Function.update x.sent writer (x.sent writer ++ [p])
    generated := Function.update x.generated writer
      (x.generated writer ++ drawnKeys (x.session writer) (after.session writer))
    initiated := Function.update x.initiated writer
      (x.initiated writer || (x.session writer).isNone) }

/-- The envelope that a side writes, and the state it is in then. -/
def written (S : Suite) (x : Correspondence σ) (writer : Side) (plaintext : Bytes) :
    Except DeviceError Wire.Envelope × Device.State σ :=
  (x.party writer).device.encrypt S [(x.party writer.peer).name] plaintext (x.party writer).state

/-- The correspondence after a side has written. An envelope without an entry for the other side
goes nowhere. -/
def write (S : Suite) (x : Correspondence σ) (writer : Side) (plaintext : Bytes) :
    Correspondence σ :=
  match x.written S writer plaintext with
  | (.error _, state) => x.withState writer state
  | (.ok envelope, state) =>
    if (envelope.entryFor (x.id writer.peer)).isNone then x.withState writer state
    else
      let bodyKey := ((x.party writer).state.env.draw 32).1
      x.posted writer ⟨envelope, plaintext, bodyKey, false⟩ state

/-- The correspondence after a side has tried to read an envelope, with the state it is in then. -/
def attempted (x : Correspondence σ) (reader : Side) (p : Post) (wasRead : Bool)
    (state : Device.State σ) : Correspondence σ :=
  let after := x.withState reader state
  let replaced := replaces (x.session reader) (after.session reader)
  { after with
    sent := Function.update
      (Function.update x.sent reader.peer
        (if wasRead then (x.sent reader.peer).tail else x.sent reader.peer))
      reader (outdated replaced (x.sent reader))
    generated := Function.update x.generated reader
      (x.generated reader ++ addedKeys (x.records reader).current (after.records reader).current)
    read := Function.update x.read reader (x.read reader + wasRead.toNat)
    superseded := x.superseded || wasRead && p.stale ||
      replaced && (x.session reader.peer).any (·.isEstablished) }

/-- What a side reads an envelope as, and the state it is in then. -/
def opened (S : Suite) (x : Correspondence σ) (reader : Side) (p : Post) :
    Except DeviceError Bytes × Device.State σ :=
  (x.party reader).device.decrypt S p.envelope (x.party reader).state

/-- The correspondence after a side has published its bundle by an action. -/
def publishBy (x : Correspondence σ) (publisher : Side)
    (publication : Device.Action σ (Option Wire.PublishedBundle)) : Correspondence σ :=
  match publication (x.party publisher).state with
  | (.ok (some published), state) =>
    { x.withState publisher state with
      published := Function.update x.published publisher (x.published publisher ++ [published]) }
  | (_, state) => x.withState publisher state

/-- The correspondence after something has happened. -/
def step (S : Suite) (x : Correspondence σ) : Event → Correspondence σ
  | .write writer plaintext => x.write S writer plaintext
  | .read reader =>
    match x.sent reader.peer with
    | [] => x
    | p :: _ =>
      match x.opened S reader p with
      | (.ok _, state) => x.attempted reader p true state
      | (.error _, state) => x.attempted reader p false state
  | .lose writer => { x with sent := Function.update x.sent writer (x.sent writer).tail }
  | .publish publisher => x.publishBy publisher (some <$> Device.publishedBundle)
  | .republish publisher => x.publishBy publisher Device.takeUnpublished
  | .learn learner position =>
    match (x.published learner.peer)[position]? with
    | none => x
    | some published =>
      x.withState learner
        ((x.party learner).device.learnBundle published (x.party learner).state).2
  | .wait side seconds =>
    let state := (x.party side).state
    x.withState side { state with env := state.env.advance seconds }

/-- The correspondence after everything in a list has happened. -/
def run (S : Suite) (x : Correspondence σ) (events : List Event) : Correspondence σ :=
  events.foldl (step S) x

/-- Two devices before anything has happened. Their bundles are published, and the key pairs that
they have are in them. -/
def start (initiator responder : Correspondent σ) : Correspondence σ where
  party
    | .initiator => initiator
    | .responder => responder
  sent _ := []
  published
    | .initiator => initiator.state.records.current.toList.map (·.publish)
    | .responder => responder.state.records.current.toList.map (·.publish)
  generated
    | .initiator => initiator.state.records.current.toList.flatMap (·.pairs)
    | .responder => responder.state.records.current.toList.flatMap (·.pairs)
  read _ := 0
  initiated _ := false
  superseded := false

/-! ## Assumptions -/

/-- The key pairs of the two sides agree on the same secrets. -/
def Agrees (S : Suite) (x : Correspondence σ) : Prop :=
  ∀ p ∈ x.generated .initiator, ∀ q ∈ x.generated .responder, p.AgreesWith S q

/-- The key pairs that a side has generated are distinct. -/
def KeysDistinct (x : Correspondence σ) : Prop :=
  ∀ side, ((x.generated side).map (·.publicKey)).Nodup

/-- No call of the store of a side will be refused. -/
def Healthy (x : Correspondence σ) (side : Side) : Prop := (x.party side).state.Healthy

/-- No envelope is lost where that is not allowed. -/
def Event.IsAllowed (d : Delivery) : Event → Prop
  | .lose _ => d = .lossy
  | _ => True

/-- What is assumed of a run in which only one side starts sessions: keys agree and are distinct,
and where envelopes can be lost, no session was replaced of which something had been read. -/
structure Assumed (d : Delivery) (S : Suite) (x : Correspondence σ) : Prop where
  agrees : x.Agrees S
  distinct : x.KeysDistinct
  oneStarts : x.initiated .responder = false
  kept : d = .lossy → x.superseded = false

/-! ## What one step leaves -/

variable {S : Suite} {x : Correspondence σ} {side other : Side} {state : Device.State σ}

omit [Store σ] [LawfulStore σ] in
@[simp] theorem id_withState : (x.withState side state).id other = x.id other := by
  simp only [id, withState, Function.update_apply]
  split
  next h => subst h; rfl
  next => rfl

omit [Store σ] [LawfulStore σ] in
@[simp] theorem name_withState :
    ((x.withState side state).party other).name = (x.party other).name := by
  simp only [withState, Function.update_apply]
  split
  next h => subst h; rfl
  next => rfl

/-- Setting a party's state sets its own records and no others. -/
theorem records_withState :
    (x.withState side state).records other = if other = side then state.records else
      x.records other := by
  simp only [records, withState, Function.update_apply]
  split <;> rfl

theorem session_withState :
    (x.withState side state).session other =
      if other = side then state.records.session (x.id other.peer) else x.session other := by
  simp only [session, records_withState, id_withState]
  split <;> rfl

/-- What a side has generated, whether it has started a session, and whether a session was replaced,
stays noted. -/
structure Extends (x x' : Correspondence σ) : Prop where
  generated : ∀ side, x.generated side <+: x'.generated side
  initiated : ∀ side, x.initiated side = true → x'.initiated side = true
  superseded : x.superseded = true → x'.superseded = true

omit [Store σ] [LawfulStore σ] in
/-- Setting a state takes back nothing that is counted. -/
theorem extends_withState : x.Extends (x.withState side state) :=
  ⟨fun _ => List.prefix_rfl, fun _ h => h, fun h => h⟩

/-- A list to which something is appended goes on from what it was. -/
theorem prefix_update {α : Type} (f : Side → List α) (side : Side) (added : List α)
    (other : Side) : f other <+: Function.update f side (f side ++ added) other := by
  rw [Function.update_apply]
  split
  next h => subst h; exact List.prefix_append _ _
  next => exact List.prefix_rfl

/-- Writing takes back nothing that is counted. -/
theorem extends_write (S : Suite) (x : Correspondence σ) (writer : Side) (plaintext : Bytes) :
    x.Extends (x.write S writer plaintext) := by
  unfold write
  split
  next => exact extends_withState
  next =>
    split
    next => exact extends_withState
    next =>
      refine ⟨prefix_update _ _ _, fun side h => ?_, fun h => h⟩
      simp only [posted, Function.update_apply]
      split
      next heq => subst heq; rw [h]; rfl
      next => exact h

/-- An attempt to read takes back nothing that is counted, whatever comes of it. -/
theorem extends_attempted (x : Correspondence σ) (reader : Side) (p : Post) (wasRead : Bool)
    (state : Device.State σ) : x.Extends (x.attempted reader p wasRead state) := by
  refine ⟨prefix_update _ _ _, fun _ h => h, fun h => ?_⟩
  simp only [attempted, h, Bool.true_or]

omit [Store σ] [LawfulStore σ] in
/-- Publishing takes back nothing that is counted. -/
theorem extends_publishBy (x : Correspondence σ) (publisher : Side)
    (publication : Device.Action σ (Option Wire.PublishedBundle)) :
    x.Extends (x.publishBy publisher publication) := by
  unfold publishBy
  split <;> exact ⟨fun _ => List.prefix_rfl, fun _ h => h, fun h => h⟩

/-- No event takes back what is counted. -/
theorem extends_step (S : Suite) (x : Correspondence σ) (e : Event) : x.Extends (x.step S e) := by
  have hrefl : x.Extends x := ⟨fun _ => List.prefix_rfl, fun _ h => h, fun h => h⟩
  cases e with
  | write writer plaintext => exact extends_write S x writer plaintext
  | read reader =>
    rw [step]
    split
    next => exact hrefl
    next => split <;> exact extends_attempted x reader _ _ _
  | lose writer => exact ⟨hrefl.1, hrefl.2, hrefl.3⟩
  | publish publisher => exact extends_publishBy x publisher _
  | republish publisher => exact extends_publishBy x publisher _
  | learn learner position =>
    rw [step]
    split
    next => exact hrefl
    next => exact extends_withState
  | wait side seconds => exact extends_withState

/-- Only writing starts a session. -/
theorem initiated_step (S : Suite) (x : Correspondence σ) {e : Event}
    (h : ∀ writer plaintext, e ≠ .write writer plaintext) :
    (x.step S e).initiated = x.initiated := by
  have hpublish (publisher : Side)
      (publication : Device.Action σ (Option Wire.PublishedBundle)) :
      (x.publishBy publisher publication).initiated = x.initiated := by
    unfold publishBy
    split <;> rfl
  cases e with
  | write writer plaintext => exact absurd rfl (h writer plaintext)
  | read reader =>
    rw [step]
    split
    next => rfl
    next => split <;> rfl
  | lose writer => rfl
  | publish publisher => exact hpublish publisher _
  | republish publisher => exact hpublish publisher _
  | learn learner position =>
    rw [step]
    split <;> rfl
  | wait side seconds => rfl

/-- A side that reads does not start to write by it. -/
theorem initiated_read (S : Suite) (x : Correspondence σ) (reader : Side) :
    (x.step S (.read reader)).initiated = x.initiated :=
  initiated_step S x fun _ _ => nofun

omit [Store σ] [LawfulStore σ] in
theorem Agrees.of_extends {x' : Correspondence σ} (h : x'.Agrees S) (hx : x.Extends x') :
    x.Agrees S :=
  fun p hp q hq => h p ((hx.generated _).subset hp) q ((hx.generated _).subset hq)

omit [Store σ] [LawfulStore σ] in
theorem KeysDistinct.of_extends {x' : Correspondence σ} (h : x'.KeysDistinct)
    (hx : x.Extends x') : x.KeysDistinct :=
  fun side => (h side).sublist ((hx.generated side).sublist.map _)

omit [Store σ] [LawfulStore σ] in
/-- What is assumed of a run held before each of its steps. -/
theorem Assumed.of_extends {d : Delivery} {x' : Correspondence σ} (h : x'.Assumed d S)
    (hx : x.Extends x') : x.Assumed d S := by
  refine ⟨h.agrees.of_extends hx, h.distinct.of_extends hx, ?_, fun hd => ?_⟩
  · exact Bool.eq_false_iff.mpr fun h' => Bool.false_ne_true (h.oneStarts.symm.trans
      (hx.initiated _ h'))
  · exact Bool.eq_false_iff.mpr fun h' => Bool.false_ne_true ((h.kept hd).symm.trans
      (hx.superseded h'))

end Correspondence

end EndToEnd

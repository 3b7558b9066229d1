import EndToEnd.Conversation
import EndToEnd.Proofs.Primitive.Aes256
import EndToEnd.Proofs.Primitive.Plain
import EndToEnd.Proofs.Session.Lockstep
import Mathlib.Data.List.Chain
import Mathlib.Data.List.Forall2
import Mathlib.Data.List.Infix
import Mathlib.Logic.Function.Basic

/-!
# Conversations in any order

An exchange is a conversation with what is on its way between its two sides. Both sides may speak at
any time; each direction delivers in the order in which messages were sent, and may lose any of
them; time may pass in between. Beside the conversation, an exchange keeps what the laws speak of:
what was said in each message, and the ratchet keys that each side has had.

Main statements:

- `Exchange.InStep.step`, `Exchange.inStep_run`: the sessions of an exchange stay in step;
- `Exchange.receive_run`: the next message of either direction is read as what was said.
-/

namespace EndToEnd

/-- A message on its way, with what was said in it. -/
structure Parcel where
  flight : Flight
  plaintext : Bytes

/-- A conversation, and what is on its way from each side, the next to arrive first. -/
structure Exchange where
  talk : Conversation
  sent : Side → List Parcel
  /-- The ratchet keys that each side has had, the newest first. -/
  ratchets : Side → List KeyPair

namespace Exchange

/-- What can happen to an exchange. -/
inductive Event
  /-- A side says something. -/
  | send (sender : Side) (plaintext : Bytes)
  /-- The next message from a side arrives. -/
  | deliver (sender : Side)
  /-- The next message from a side is lost. -/
  | lose (sender : Side)
  /-- Time passes. -/
  | wait (seconds : UInt64)

/-- A conversation in which nothing has been said. -/
def start (c : Conversation) : Exchange :=
  ⟨c, fun _ => [], fun side => (c.session side).ratchet.toList⟩

/-- The exchange after a side has said something. What cannot be sealed is not sent. -/
def say (S : Suite) (x : Exchange) (sender : Side) (plaintext : Bytes) : Exchange :=
  let session := x.talk.session sender
  match x.talk.send S sender plaintext with
  | (.error _, talk) => { x with talk }
  | (.ok flight, talk) =>
    { talk
      sent := Function.update x.sent sender
        (x.sent sender ++ [⟨flight, plaintext⟩])
      ratchets := if session.sendStepDue.isSome then
          Function.update x.ratchets sender
            ((talk.session sender).ratchet.toList ++ x.ratchets sender)
        else x.ratchets }

/-- The exchange after something has happened. -/
def step (S : Suite) (x : Exchange) : Event → Exchange
  | .send sender plaintext => x.say S sender plaintext
  | .deliver sender =>
    match x.sent sender with
    | [] => x
    | p :: rest =>
      { x with
        talk := (x.talk.receive S p.flight).2
        sent := Function.update x.sent sender rest }
  | .lose sender => { x with sent := Function.update x.sent sender (x.sent sender).tail }
  | .wait seconds => { x with talk.env := x.talk.env.advance seconds }

/-- The exchange after everything in a list has happened. -/
def run (S : Suite) (x : Exchange) (events : List Event) : Exchange := events.foldl (step S) x

/-! ## Assumptions -/

/-- The ratchet keys of the two sides agree on the same secrets. -/
def Agrees (S : Suite) (x : Exchange) : Prop :=
  ∀ p ∈ x.ratchets .initiator, ∀ q ∈ x.ratchets .responder,
    p.agree S q.publicKey.bytes = q.agree S p.publicKey.bytes

/-- No side has drawn the ratchet key that it had. -/
def KeysChange (x : Exchange) : Prop :=
  ∀ side, (x.ratchets side).IsChain fun new old => old.publicKey ≠ new.publicKey

/-- A message is at most as far ahead in its chain as the configuration allows. -/
def WithinReach (x : Exchange) (p : Parcel) : Prop :=
  ∀ payload, p.flight.payload = .ok payload →
    Session.WithinReach x.talk.config (x.talk.session p.flight.sender.peer) payload

/-- No key that its receiver has kept opens a message, unless it could have been sealed with it. -/
def Unmistaken (S : Suite) (x : Exchange) (p : Parcel) : Prop :=
  ∀ payload, p.flight.payload = .ok payload →
    Session.Unmistaken S (x.talk.session p.flight.sender.peer) p.plaintext payload

end Exchange

/-- A conversation in which nothing has been said: the sessions of both sides of one handshake. -/
def Conversation.IsFresh (S : Suite) (c : Conversation) : Prop :=
  ∃ secret identity ephemeral theirOneTime ratchet,
    c.initiator = .initiator S secret identity ephemeral theirOneTime ratchet ∧
    Session.responder S secret ratchet.publicKey.bytes = .ok c.responder

/-- A conversation starts with a handshake, and nothing else. -/
theorem Conversation.isFresh_of_start {S : Suite} {env : Environment} {config : Config}
    {c : Conversation} (h : start S env config = .ok c) : c.IsFresh S := by
  unfold start at h
  split at h
  next met env' hdraw =>
    obtain rfl := Except.ok.inj h
    unfold Encounter.draw at hdraw
    simp only at hdraw
    split at hdraw
    next => exact nomatch (Prod.mk.inj hdraw).1
    next secret hsecret =>
      obtain ⟨hmet, -⟩ := Prod.mk.inj hdraw
      obtain ⟨responder, hresponder, rfl⟩ := map_eq_ok.mp hmet
      exact ⟨secret, _, _, _, _, rfl, mapError_eq_ok.mp hresponder⟩
  next => exact nomatch h

namespace Exchange

variable {S : Suite} {x : Exchange} {p : Parcel} {side : Side} {l : Letter}

/-! ## Checking a run -/

instance : Decidable (x.Agrees S) :=
  inferInstanceAs (Decidable (∀ p ∈ x.ratchets .initiator, ∀ q ∈ x.ratchets .responder, _ = _))

instance : Decidable x.KeysChange :=
  inferInstanceAs (Decidable (∀ side, (x.ratchets side).IsChain _))

instance : Decidable (x.WithinReach p) :=
  inferInstanceAs (Decidable (∀ payload, p.flight.payload = .ok payload → _))

/-- A side that has kept no key mistakes nothing. -/
theorem Unmistaken.of_skipped_eq_nil
    (h : (x.talk.session p.flight.sender.peer).skipped = []) : x.Unmistaken S p :=
  fun _ _ => .of_skipped_eq_nil h

/-- An environment that draws keys which are one byte over and over. -/
def drawing (bytes : List UInt8) : Environment :=
  .ofSeed 0 (bytes.flatMap (List.replicate 32))

/-! ## The invariant -/

/-- A parcel carries a letter of a side. -/
structure Holds (side : Side) (p : Parcel) (l : Letter) : Prop where
  sender : p.flight.sender = side
  isHandshake : p.flight.isHandshake = l.isHandshake
  payload : p.flight.payload = .ok l.payload
  plaintext : p.plaintext = l.plaintext

/-- The sessions of an exchange are in step, with the letters that its parcels carry, and the newest
ratchet key of each side is the one its session has. -/
structure InStepFrom (S : Suite) (x : Exchange) (side : Side) (ours theirs : List Letter) :
    Prop where
  ourParcels : List.Forall₂ (Holds side) (x.sent side) ours
  theirParcels : List.Forall₂ (Holds side.peer) (x.sent side.peer) theirs
  lockstep : Session.Lockstep .lossy S (x.talk.session side) (x.talk.session side.peer) ours theirs
  ourRatchet : (x.talk.session side).ratchet = (x.ratchets side).head?
  theirRatchet : (x.talk.session side.peer).ratchet = (x.ratchets side.peer).head?

/-- The same, as both sides see it. -/
def InStep (S : Suite) (x : Exchange) : Prop :=
  ∀ side, ∃ ours theirs, x.InStepFrom S side ours theirs

theorem InStepFrom.inStep (side : Side) (ours theirs : List Letter)
    (h : x.InStepFrom S side ours theirs) : x.InStep S := by
  intro other
  rcases Side.eq_or_eq_peer side other with rfl | rfl
  · exact ⟨ours, theirs, h⟩
  · refine ⟨theirs, ours, h.theirParcels, ?_, ?_, h.theirRatchet, ?_⟩
    · rw [Side.peer_peer]
      exact h.ourParcels
    · rw [Side.peer_peer]
      exact h.lockstep.symm
    · rw [Side.peer_peer]
      exact h.ourRatchet

/-! ## One step -/

/-- A sealed message carries its payload to the peer. -/
theorem payload_of_carries {s : Session} {payload bytes : Bytes} (h : s.Carries payload bytes)
    (side : Side) : Flight.payload ⟨side, !s.isEstablished, bytes⟩ = .ok payload := by
  unfold Session.Carries at h
  split at h
  next hest =>
    subst h
    simp only [Flight.payload, hest, Bool.not_true, Bool.false_eq_true, if_false]
  next hest =>
    obtain ⟨identity, ephemeral, oneTime, -, -, -, hencode⟩ := h
    rw [Flight.payload, Bool.eq_false_iff.mpr hest, Bool.not_false, if_pos rfl,
      Wire.HandshakeMessage.decode_encode rfl hencode]
    rfl

/-- What saying something does, if it can be sealed. -/
theorem say_cases (S : Suite) (x : Exchange) (side : Side) (plaintext : Bytes) :
    (∃ env, x.say S side plaintext = { x with talk := { x.talk with env } }) ∨
    ∃ bytes after env,
      ((x.talk.session side).sealForPeer S plaintext x.talk.env).1 = .ok (bytes, after) ∧
      x.say S side plaintext =
        { talk := ({ x.talk with env } : Conversation).setSession side after
          sent := Function.update x.sent side (x.sent side ++
            [⟨⟨side, !(x.talk.session side).isEstablished, bytes⟩, plaintext⟩])
          ratchets := if (x.talk.session side).sendStepDue.isSome then
              Function.update x.ratchets side (after.ratchet.toList ++ x.ratchets side)
            else x.ratchets } := by
  cases hsealed : (x.talk.session side).sealForPeer S plaintext x.talk.env with
  | mk sealed env =>
    cases sealed with
    | error cause =>
      refine .inl ⟨env, ?_⟩
      simp only [say, Conversation.send, hsealed]
    | ok sealed =>
      obtain ⟨bytes, after⟩ := sealed
      refine .inr ⟨bytes, after, env, rfl, ?_⟩
      simp only [say, Conversation.send, hsealed, Conversation.session_setSession, if_true]

/-- What the arrival of the next message does: the receiver opens it, or refuses it and is left as
it was. -/
theorem receive_cases (S : Suite) (c : Conversation) (f : Flight) {payload : Bytes}
    (hpayload : f.payload = .ok payload) :
    (c.receive S f).2 = c ∨ ∃ plaintext after,
      (c.session f.sender.peer).openMessage S c.config c.env.clock payload f.isHandshake =
        .ok (plaintext, after) ∧ (c.receive S f).2 = c.setSession f.sender.peer after := by
  cases hopen : (c.session f.sender.peer).openMessage S c.config c.env.clock payload
      f.isHandshake with
  | error cause =>
    refine .inl ?_
    simp only [Conversation.receive, hpayload, mapError_ok, ok_bind, hopen]
  | ok opened =>
    obtain ⟨plaintext, after⟩ := opened
    refine .inr ⟨plaintext, after, rfl, ?_⟩
    simp only [Conversation.receive, hpayload, mapError_ok, ok_bind, hopen]

/-- Every ratchet key that a side has had stays noted. -/
theorem ratchets_suffix (S : Suite) (x : Exchange) (e : Event) (side : Side) :
    x.ratchets side <:+ (x.step S e).ratchets side := by
  cases e with
  | send sender plaintext =>
    rcases say_cases S x sender plaintext with ⟨env, h⟩ | ⟨bytes, after, env, -, h⟩
    · rw [step, h]
    · rw [step, h]
      show _ <:+ (if _ then _ else _ : Side → List KeyPair) side
      split
      · rcases Side.eq_or_eq_peer sender side with rfl | rfl
        · rw [Function.update_self]
          exact List.suffix_append _ _
        · rw [Function.update_of_ne (Side.peer_ne sender)]
      · exact List.suffix_rfl
  | deliver sender =>
    rw [step]
    split <;> exact List.suffix_rfl
  | lose sender => exact List.suffix_rfl
  | wait seconds => exact List.suffix_rfl

theorem Agrees.of_step {e : Event} (h : (x.step S e).Agrees S) : x.Agrees S := fun p hp q hq =>
  h p ((ratchets_suffix S x e _).subset hp) q ((ratchets_suffix S x e _).subset hq)

theorem KeysChange.of_step {e : Event} (h : (x.step S e).KeysChange) : x.KeysChange := fun side =>
  (h side).suffix (ratchets_suffix S x e side)

/-- The keys of either side agree with those of the other. -/
theorem Agrees.sides (h : x.Agrees S) (side : Side) {p q : KeyPair} (hp : p ∈ x.ratchets side)
    (hq : q ∈ x.ratchets side.peer) :
    q.agree S p.publicKey.bytes = p.agree S q.publicKey.bytes := by
  cases side with
  | initiator => exact (h p hp q hq).symm
  | responder => exact h q hq p hp

theorem session_env (c : Conversation) (env : Environment) (side : Side) :
    ({ c with env } : Conversation).session side = c.session side := by cases side <;> rfl

/-- An exchange stays in step when a side says something. -/
theorem InStep.say (h : x.InStep S) {plaintext : Bytes}
    (hagrees : (x.say S side plaintext).Agrees S) (hchange : (x.say S side plaintext).KeysChange) :
    (x.say S side plaintext).InStep S := by
  obtain ⟨ours, theirs, h⟩ := h side
  rcases say_cases S x side plaintext with ⟨env, heq⟩ | ⟨bytes, after, env, hsealed, heq⟩
  · rw [heq]
    refine InStepFrom.inStep side ours theirs ?_
    refine ⟨h.ourParcels, h.theirParcels, ?_, ?_, ?_⟩
    · simpa only [session_env] using h.lockstep
    · simpa only [session_env] using h.ourRatchet
    · simpa only [session_env] using h.theirRatchet
  have hratchet := Session.sealForPeer_ratchet hsealed
  have hself : (x.say S side plaintext).talk.session side = after := by
    rw [heq, Conversation.session_setSession, if_pos rfl]
  have hpeer : (x.say S side plaintext).talk.session side.peer = x.talk.session side.peer := by
    rw [heq, Conversation.session_setSession, if_neg (Side.peer_ne side), session_env]
  have hnewest : after.ratchet = ((x.say S side plaintext).ratchets side).head? := by
    rw [hratchet, heq]
    split
    next hdue =>
      simp only [hratchet, if_pos hdue, Function.update_self]
      rfl
    next => exact h.ourRatchet
  have hother : (x.talk.session side.peer).ratchet =
      ((x.say S side plaintext).ratchets side.peer).head? := by
    rw [heq, h.theirRatchet]
    split
    next => simp only [Function.update_of_ne (Side.peer_ne side)]
    next => rfl
  -- the key that a step leaves behind is the next in the list of the sender's ratchet keys
  have hfresh (old new : KeyPair) (hdue : (x.talk.session side).sendStepDue.isSome)
      (hold : (x.talk.session side).ratchet = some old) (hnew : after.ratchet = some new) :
      old.publicKey ≠ new.publicKey := by
    have hkeys := hchange side
    obtain ⟨older, holder⟩ := List.head?_eq_some_iff.mp (h.ourRatchet.symm.trans hold)
    rw [heq] at hkeys
    simp only [hdue, if_true, Function.update_self, hnew, Option.toList_some, holder] at hkeys
    exact (List.isChain_cons_cons.mp hkeys).1
  -- both newest keys are in the lists, and those agree with each other
  have hcommute (own other : KeyPair) (hown : after.ratchet = some own)
      (hother' : (x.talk.session side.peer).ratchet = some other) :
      other.agree S own.publicKey.bytes = own.agree S other.publicKey.bytes :=
    hagrees.sides side (List.mem_of_mem_head? (hnewest.symm.trans hown))
      (List.mem_of_mem_head? (hother.symm.trans hother'))
  obtain ⟨l, hhandshake, hplaintext, hcarries, -, -, hsends⟩ :=
    Session.exists_letter_of_sealForPeer hsealed
  have hlockstep := hsends _ _ _ _ h.lockstep hfresh hcommute
  refine InStepFrom.inStep side (ours ++ [l]) theirs
    ⟨?_, ?_, ?_, ?_, ?_⟩
  · rw [heq]
    simp only [Function.update_self]
    refine List.rel_append h.ourParcels (.cons ⟨rfl, hhandshake.symm, ?_, hplaintext.symm⟩ .nil)
    exact payload_of_carries hcarries side
  · rw [heq]
    simp only [Function.update_of_ne (Side.peer_ne side)]
    exact h.theirParcels
  · rw [hself, hpeer]
    exact hlockstep
  · rw [hself]
    exact hnewest
  · rw [hpeer]
    exact hother

/-- An exchange stays in step when the next message arrives. -/
theorem InStep.deliver (h : x.InStep S) : (x.step S (.deliver side)).InStep S := by
  obtain ⟨ours, theirs, h⟩ := h side
  rw [step]
  cases hsent : x.sent side with
  | nil => exact h.inStep _ _ _
  | cons p rest =>
    have hours := h.ourParcels
    rw [hsent] at hours
    cases hours with
    | @cons _ l _ ours hp hrest =>
      have hparcels : (Function.update x.sent side rest) side = rest := Function.update_self _ _ _
      have hback : (Function.update x.sent side rest) side.peer = x.sent side.peer :=
        Function.update_of_ne (Side.peer_ne side) _ _
      rcases receive_cases S x.talk p.flight hp.payload with heq | ⟨plaintext, after, hopen, heq⟩
      · -- a message that is refused is a letter lost
        refine InStepFrom.inStep side ours theirs
          ⟨?_, ?_, ?_, ?_, ?_⟩
        · simp only [hparcels]
          exact hrest
        · simp only [hback]
          exact h.theirParcels
        · simp only [heq]
          exact h.lockstep.lost
        · simp only [heq]
          exact h.ourRatchet
        · simp only [heq]
          exact h.theirRatchet
      · rw [hp.sender] at hopen heq
        rw [hp.isHandshake] at hopen
        have hself : (x.talk.setSession side.peer after).session side = x.talk.session side := by
          rw [Conversation.session_setSession, if_neg (Side.peer_ne side).symm]
        have hpeer : (x.talk.setSession side.peer after).session side.peer = after := by
          rw [Conversation.session_setSession, if_pos rfl]
        have hframe : after.ratchet = (x.talk.session side.peer).ratchet := by
          rw [Session.openMessage_frame hopen]
        refine InStepFrom.inStep side ours theirs
          ⟨?_, ?_, ?_, ?_, ?_⟩
        · simp only [hparcels]
          exact hrest
        · simp only [hback]
          exact h.theirParcels
        · simp only [heq, hself, hpeer]
          exact (h.lockstep.opened nofun hopen).1
        · simp only [heq, hself]
          exact h.ourRatchet
        · simp only [heq, hpeer, hframe]
          exact h.theirRatchet

/-- Whatever happens to an exchange, it stays in step. -/
theorem InStep.step (h : x.InStep S) {e : Event} (hagrees : (x.step S e).Agrees S)
    (hchange : (x.step S e).KeysChange) : (x.step S e).InStep S := by
  cases e with
  | send sender plaintext => exact h.say hagrees hchange
  | deliver sender => exact h.deliver
  | lose sender =>
    obtain ⟨ours, theirs, h⟩ := h sender
    have hrest : ∃ rest, List.Forall₂ (Holds sender) (x.sent sender).tail rest ∧
        Session.Lockstep .lossy S (x.talk.session sender) (x.talk.session sender.peer) rest theirs := by
      have hlockstep := h.lockstep
      have hparcels := h.ourParcels
      generalize x.sent sender = parcels at hparcels
      cases hparcels with
      | nil => exact ⟨[], .nil, hlockstep⟩
      | cons _ hrest => exact ⟨_, hrest, hlockstep.lost⟩
    obtain ⟨rest, hparcels, hlockstep⟩ := hrest
    refine InStepFrom.inStep sender rest theirs
      ⟨?_, ?_, hlockstep, h.ourRatchet, h.theirRatchet⟩
    · simp only [Exchange.step, Function.update_self]
      exact hparcels
    · simp only [Exchange.step, Function.update_of_ne (Side.peer_ne sender)]
      exact h.theirParcels
  | wait seconds =>
    obtain ⟨ours, theirs, h⟩ := h .initiator
    exact InStepFrom.inStep .initiator _ _
      ⟨h.ourParcels, h.theirParcels, h.lockstep, h.ourRatchet, h.theirRatchet⟩

/-! ## Runs -/

theorem InStep.start {c : Conversation} (hfresh : c.IsFresh S) : (start c).InStep S := by
  obtain ⟨secret, identity, ephemeral, theirOneTime, ratchet, hinitiator, hresponder⟩ := hfresh
  refine InStepFrom.inStep .initiator [] [] ⟨.nil, .nil, ?_, ?_, ?_⟩
  · show Session.Lockstep .lossy S c.initiator c.responder [] []
    rw [hinitiator]
    exact .start hresponder
  · exact Option.head?_toList.symm
  · exact Option.head?_toList.symm

/-- The sessions of a conversation are in step after every run. -/
theorem inStep_run {c : Conversation} (hfresh : c.IsFresh S) (events : List Event)
    (hagrees : ((start c).run S events).Agrees S) (hchange : ((start c).run S events).KeysChange) :
    ((start c).run S events).InStep S := by
  induction events using List.reverseRecOn with
  | nil => exact .start hfresh
  | append_singleton events e ih =>
    rw [run, List.foldl_append] at hagrees hchange ⊢
    exact (ih hagrees.of_step hchange.of_step).step hagrees hchange

/-- In every run of a conversation in which no side draws the ratchet key that it had, the next
message of either direction is read as what was said, unless it is too far ahead or a key that was
kept for another message opens it. -/
theorem receive_run (hcipher : S.CipherUndoes) {c : Conversation} (hfresh : c.IsFresh S)
    (events : List Event) (hagrees : ((start c).run S events).Agrees S)
    (hchange : ((start c).run S events).KeysChange) {side : Side} {p : Parcel} {rest : List Parcel}
    (hnext : ((start c).run S events).sent side = p :: rest)
    (hreach : ((start c).run S events).WithinReach p)
    (hown : ((start c).run S events).Unmistaken S p) :
    (((start c).run S events).talk.receive S p.flight).1 = .ok p.plaintext := by
  obtain ⟨ours, theirs, h⟩ := inStep_run hfresh events hagrees hchange side
  generalize (start c).run S events = x at *
  have hours := h.ourParcels
  rw [hnext] at hours
  cases hours with
  | @cons _ l _ ours hp hrest =>
    obtain ⟨after, hopen⟩ : ∃ after, (x.talk.session side.peer).openMessage S x.talk.config
        x.talk.env.clock l.payload l.isHandshake = .ok (l.plaintext, after) :=
      h.lockstep.opens hcipher (hp.sender ▸ hreach _ hp.payload)
        (hp.sender ▸ hp.plaintext ▸ hown _ hp.payload)
    rw [← hp.isHandshake, ← hp.sender] at hopen
    simp only [Conversation.receive, hp.payload, mapError_ok, ok_bind, hopen, hp.plaintext]

/-- Both sides speak before either has read anything, and the first message of each is lost. -/
theorem receive_run_after_losses : ∃ c,
    Conversation.start .standard (drawing [1, 2, 3, 4, 5, 6]) {} = .ok c ∧
      let x := (start c).run .standard [.send .initiator [1], .send .responder [2],
        .lose .initiator, .send .responder [3], .lose .responder]
      ∃ p, x.sent .responder = [p] ∧ p.plaintext = [3] ∧
        (x.talk.receive .standard p.flight).1 = .ok p.plaintext := by
  have hrun : ∃ c, Conversation.start .standard (drawing [1, 2, 3, 4, 5, 6]) {} = .ok c ∧
      let x := (start c).run .standard [.send .initiator [1], .send .responder [2],
        .lose .initiator, .send .responder [3], .lose .responder]
      x.Agrees .standard ∧ x.KeysChange ∧ (x.sent .responder).map (·.plaintext) = [[3]] ∧
        ∀ p ∈ x.sent .responder,
          x.WithinReach p ∧ (x.talk.session p.flight.sender.peer).skipped = [] := by
    decide +kernel
  obtain ⟨c, hstart, hagrees, hchange, hplaintext, hparcel⟩ := hrun
  obtain ⟨p, hsent, hp⟩ := List.map_eq_singleton_iff.mp hplaintext
  obtain ⟨hreach, hskipped⟩ := hparcel p (hsent ▸ List.mem_singleton_self p)
  exact ⟨c, hstart, p, hsent, hp, receive_run Suite.standard_cipherUndoes
    (Conversation.isFresh_of_start hstart) _ hagrees hchange hsent hreach
    (.of_skipped_eq_nil hskipped)⟩

/-- A side that draws the ratchet key that it had is not understood: its message is taken for one
that was read before. -/
theorem refused_of_repeated_ratchet : ∃ c,
    Conversation.start .plain (drawing [1, 2, 3, 4, 5, 6, 5]) {} = .ok c ∧
      let x := (start c).run .plain [.send .initiator [1], .deliver .initiator,
        .send .responder [2], .deliver .responder, .send .initiator [3]]
      x.Agrees .plain ∧ ∃ p, x.sent .initiator = [p] ∧ x.WithinReach p ∧ x.Unmistaken .plain p ∧
        (x.talk.receive .plain p.flight).1 = .error (.rejected (.consumed 0 1)) := by
  have hrun : ∃ c, Conversation.start .plain (drawing [1, 2, 3, 4, 5, 6, 5]) {} = .ok c ∧
      let x := (start c).run .plain [.send .initiator [1], .deliver .initiator,
        .send .responder [2], .deliver .responder, .send .initiator [3]]
      x.Agrees .plain ∧ (x.sent .initiator).length = 1 ∧ ∀ p ∈ x.sent .initiator,
        x.WithinReach p ∧ (x.talk.session p.flight.sender.peer).skipped = [] ∧
          (x.talk.receive .plain p.flight).1 = .error (.rejected (.consumed 0 1)) := by
    decide +kernel
  obtain ⟨c, hstart, hagrees, hlength, hparcel⟩ := hrun
  obtain ⟨p, hsent⟩ := List.length_eq_one_iff.mp hlength
  obtain ⟨hreach, hskipped, hrefused⟩ := hparcel p (hsent ▸ List.mem_singleton_self p)
  exact ⟨c, hstart, hagrees, p, hsent, hreach, .of_skipped_eq_nil hskipped, hrefused⟩

end Exchange

end EndToEnd
